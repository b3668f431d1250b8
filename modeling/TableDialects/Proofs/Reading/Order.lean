import Mathlib.Data.List.Nodup
import TableDialects.Proofs.Reading.Options

/- The order of the options of a column. Options of different kinds set different
   fields, so that their order does not matter once they are read; and they are
   read the same in every order (`Clause.read_options_perm`) but for two places
   where a keyword of an option goes on with what stands before it: ON UPDATE SET
   behind a reference and before NULL or DEFAULT, and a column named FULLTEXT or
   SPATIAL with the type KEY or INDEX, which may be an index. -/
namespace TableDialects

/-! ## What options do -/

inductive OptionKind where
  | nullability
  | default
  | counting
  | primaryKey
  | unique
  | check
  | reference
  | onUpdate
  | comment
  | collation
  | other
  deriving DecidableEq

def ColumnOption.kind : ColumnOption → OptionKind
  | .notNull => .nullability
  | .null => .nullability
  | .default _ => .default
  | .autoIncrement => .counting
  | .primaryKey => .primaryKey
  | .unique => .unique
  | .check _ => .check
  | .references _ => .reference
  | .onUpdate _ => .onUpdate
  | .comment _ => .comment
  | .collate _ => .collation
  | .skipped => .other
  | .other _ => .other

theorem Column.apply_comm {o p : ColumnOption} (h : o.kind ≠ p.kind) (c : Column) :
    (c.apply o).apply p = (c.apply p).apply o := by
  cases o <;> cases p <;> first | rfl | exact absurd rfl h

/-- Options of pairwise different kinds do the same in every order. -/
theorem Column.foldl_apply_perm {os ps : List ColumnOption} (hkinds : (os.map ColumnOption.kind).Nodup)
    (h : os.Perm ps) (c : Column) : os.foldl apply c = ps.foldl apply c := by
  refine h.foldl_eq' ?_ c
  intro o ho p hp c
  by_cases hk : o.kind = p.kind
  · rw [List.inj_on_of_nodup_map hkinds ho hp hk]
  · exact apply_comm hk c

/-! ## Reading options in order -/

structure SpelledOption where
  option : ColumnOption
  tokens : List Token
  spelled : option.Spelled tokens

theorem takeReferencePart_lead {words : List String} {front : List Token} (hwords : words ∈ optionLeads)
    (hne : words ≠ ["ON", "UPDATE"]) (h : Spells words front) (rest : List Token) :
    takeReferencePart (front ++ rest) = .ok (none, front ++ rest) := by
  have hdiffer : ∀ ws ∈ optionLeads, ws ≠ ["ON", "UPDATE"] → differ ws ["ON", "DELETE"] = true ∧
      differ ws ["ON", "UPDATE"] = true ∧ differ ws ["MATCH"] = true ∧
      differ ws ["NOT", "DEFERRABLE"] = true ∧ differ ws ["DEFERRABLE"] = true ∧
      differ ws ["INITIALLY"] = true := by decide
  obtain ⟨hdelete, hupdate, hmatch, hnot, hdeferrable, hinitially⟩ := hdiffer words hwords hne
  unfold takeReferencePart
  rw [afterWords?_differ h hdelete, afterWords?_differ h hupdate, afterWords?_differ h hmatch,
    afterWords?_differ h hnot, afterWords?_differ h hdeferrable, afterWords?_differ h hinitially]
  rfl

/-- An expression that begins with no action begins with none in front of further
options, unless SET meets NULL or DEFAULT. -/
theorem IsExpression.startsWithWords {e rest : List Token} (h : IsExpression e) (hrest : OptionNext rest)
    (hno : ∀ action : ReferenceAction,
      TableDialects.startsWithWords (action.words.map String.toList) e = false)
    (hset : Spells ["SET"] e → startsWithWordOf ["NULL", "DEFAULT"] rest = false)
    (action : ReferenceAction) :
    TableDialects.startsWithWords (action.words.map String.toList) (e ++ rest) = false := by
  -- Only NULL and DEFAULT both end an action and start an option.
  have hpair : ∀ w ∈ ["NULL", "DEFAULT"],
      TableDialects.startsWithWords ["SET".toList, w.toList] e = false →
      TableDialects.startsWithWords ["SET".toList, w.toList] (e ++ rest) = false := by
    intro w hw hnot
    cases e with
    | nil => exact absurd rfl h.ne_nil
    | cons t e =>
      cases e with
      | cons u e => exact hnot
      | nil =>
        rw [List.singleton_append, TableDialects.startsWithWords, Bool.and_eq_false_iff]
        by_cases ht : t.isWord "SET" = true
        · right
          have hnone := hset ⟨ht, trivial⟩
          cases rest with
          | nil => rfl
          | cons u rest =>
            rw [startsWithWordOf, isWordOf_eq_any, List.any_eq_false] at hnone
            rw [TableDialects.startsWithWords, Bool.eq_false_iff.2 (hnone w hw)]
            rfl
        · exact .inl (Bool.eq_false_iff.2 ht)
  cases action with
  | cascade => exact (startsWithWords_append (hrest.avoids (by decide))).trans (hno .cascade)
  | restrict => exact (startsWithWords_append (hrest.avoids (by decide))).trans (hno .restrict)
  | noAction => exact (startsWithWords_append (hrest.avoids (by decide))).trans (hno .noAction)
  | setNull => exact hpair "NULL" (by decide) (hno .setNull)
  | setDefault => exact hpair "DEFAULT" (by decide) (hno .setDefault)

/-- An option does not go on with a reference, unless it is ON UPDATE SET in front
of NULL or DEFAULT. -/
theorem ColumnOption.Spelled.takeReferencePart {o : ColumnOption} {ts rest : List Token} (h : o.Spelled ts)
    (hrest : OptionNext rest)
    (hset : ∀ e, o = .onUpdate e → Spells ["SET"] e → startsWithWordOf ["NULL", "DEFAULT"] rest = false) :
    TableDialects.takeReferencePart (ts ++ rest) = .ok (none, ts ++ rest) := by
  rcases h.lead with ⟨words, hwords, hne, front, more, hspells, rfl⟩ |
    ⟨front, e, rfl, hspells, rfl, he, hno⟩
  · rw [List.append_assoc]
    exact takeReferencePart_lead hwords hne hspells _
  · rw [List.append_assoc]
    have hupdate := afterWords?_spelled hspells (e ++ rest)
    have hnone : eventAction? .update (front ++ (e ++ rest)) = none := by
      obtain ⟨on, more, rfl, hon, hmore⟩ := hspells.cons
      obtain ⟨update, more, rfl, hword, hnil⟩ := hmore.cons
      obtain rfl := hnil.nil
      rw [eventAction?, List.findSome?_eq_none_iff]
      intro action _
      have hstarts : TableDialects.startsWithWords (("ON" :: "UPDATE" :: action.words).map String.toList)
          ([on, update] ++ (e ++ rest)) = false := by
        show (on.isWord "ON" && (update.isWord "UPDATE" && TableDialects.startsWithWords _ (e ++ rest))) = false
        rw [he.startsWithWords hrest hno (hset e rfl) action, Bool.and_false, Bool.and_false]
      rw [ReferenceEvent.word, afterWords?, hstarts]
      rfl
    unfold TableDialects.takeReferencePart
    rw [afterWords?_differ hspells (by decide), hupdate, hnone]
    rfl

/-- ON UPDATE SET stands right behind a reference and right before NULL or
DEFAULT: SET is read as the start of an action. -/
def MeetsAction (os : List SpelledOption) : Prop :=
  ∃ r u x : SpelledOption, [r, u, x] <:+: os ∧ r.option.kind = .reference ∧
    (∃ e, u.option = .onUpdate e ∧ Spells ["SET"] e) ∧
    startsWithWordOf ["NULL", "DEFAULT"] x.tokens = true

def optionTokens (os : List SpelledOption) : List Token := os.flatMap SpelledOption.tokens

theorem optionNext_tokens (os : List SpelledOption) : OptionNext (optionTokens os) := by
  cases os with
  | nil => exact optionNext_nil
  | cons o os => exact o.spelled.next _

theorem SpelledOption.tokens_eq_cons (o : SpelledOption) : ∃ t more, o.tokens = t :: more := by
  obtain ⟨t, more, htokens, -⟩ := o.spelled.read optionNext_nil fun _ _ => rfl
  exact ⟨t, more, htokens⟩

theorem takeReferencePart_tokens {r : SpelledOption} {os : List SpelledOption}
    (hr : r.option.kind = .reference) (h : ¬ MeetsAction (r :: os)) :
    takeReferencePart (optionTokens os) = .ok (none, optionTokens os) := by
  cases os with
  | nil => rfl
  | cons u os =>
    refine u.spelled.takeReferencePart (optionNext_tokens os) fun e he hset => ?_
    -- Behind the update the first token decides, and with it the option that it starts.
    cases os with
    | nil => rfl
    | cons x os =>
      obtain ⟨t, more, hx⟩ := x.tokens_eq_cons
      cases ht : t.isWordOf ["NULL", "DEFAULT"] with
      | false =>
        show startsWithWordOf _ (x.tokens ++ optionTokens os) = false
        rw [hx]
        exact ht
      | true =>
        refine absurd ⟨r, u, x, ⟨[], os, rfl⟩, hr, ⟨e, he, hset⟩, ?_⟩ h
        rw [hx]
        exact ht

theorem readAll_tokens {os : List SpelledOption} (h : ¬ MeetsAction os) :
    ColumnOption.readAll (optionTokens os) = .ok (os.map SpelledOption.option) := by
  induction os with
  | nil => rw [optionTokens, List.flatMap_nil, ColumnOption.readAll, List.map_nil]
  | cons o os ih =>
    have hrest : ¬ MeetsAction os := by
      rintro ⟨r, u, x, hin, hmeets⟩
      exact h ⟨r, u, x, hin.trans (List.infix_cons (List.infix_refl os)), hmeets⟩
    obtain ⟨t, more, htokens, hread⟩ := o.spelled.read (optionNext_tokens os) fun r hr =>
      takeReferencePart_tokens (by rw [hr]; rfl) h
    have hsplit : optionTokens (o :: os) = t :: (more ++ optionTokens os) := by
      rw [optionTokens, List.flatMap_cons, htokens]
      rfl
    rw [hsplit, ColumnOption.readAll_cons, hread]
    dsimp only
    rw [ih hrest]
    rfl

/-! ## Names and types in front of options -/

theorem startsOpen_append {ts us : List Token} (hus : startsOpen us = false) :
    startsOpen (ts ++ us) = startsOpen ts := by
  cases ts with
  | nil => exact hus
  | cons t ts => rfl

namespace Column

/-- Behind modifiers that end the tokens, further ones are taken on. -/
theorem takeModifiers_append {c c' : Column} {ts : List Token} (h : takeModifiers c ts = (c', []))
    (us : List Token) : takeModifiers c (ts ++ us) = takeModifiers c' us := by
  fun_induction takeModifiers c ts with
  | case1 c => cases h; rfl
  | case2 c t ts ht ih => rw [List.cons_append, takeModifiers, if_pos ht, ih h]
  | case3 c t ts ht ha ih => rw [List.cons_append, takeModifiers, if_neg ht, if_pos ha, ih h]
  | case4 => cases h

theorem takeModifiers_options (c : Column) {us : List Token} (hus : OptionNext us) :
    takeModifiers c us = (c, us) := by
  cases us with
  | nil => rfl
  | cons u us =>
    have hmodifier : u.isWordOf typeModifiers = false := hus.startsWithWordOf typeModifiers (by decide)
    rw [takeModifiers, hmodifier, hus.isArray u rfl, if_neg Bool.false_ne_true, if_neg Bool.false_ne_true]

theorem takeParams_append {words : List Text} {params : Text × List Text} {ts rest us : List Token}
    (h : takeParams words ts = .ok (params, rest)) (hus : Avoids continuations us)
    (hopen : startsOpen us = false) : takeParams words (ts ++ us) = .ok (params, rest ++ us) := by
  unfold takeParams at h ⊢
  rw [startsOpen_append hopen]
  cases ho : startsOpen ts with
  | false =>
    rw [ho, if_neg Bool.false_ne_true] at h
    cases h
    rfl
  | true =>
    rw [ho, if_pos rfl] at h
    rw [if_pos rfl]
    cases hgroup : takeGroup ts with
    | error e => rw [hgroup] at h; cases h
    | ok p =>
      obtain ⟨inner, left⟩ := p
      rw [hgroup] at h
      rw [takeGroup_append hgroup]
      dsimp only at h ⊢
      rw [takeSequence_append (by decide) hus]
      split at h
      · cases h
        rename_i hzone
        rw [if_pos hzone]
      · cases h
        rename_i hzone
        rw [if_neg hzone]

/-- A quoted type is one token; behind a word, other tokens add none to it. -/
theorem takeTypeWords_behind {t : Token} {ts us : List Token} (hstart : startsType t ts = true)
    (hus : Avoids continuations us) :
    takeTypeWords t (ts ++ us) = ((takeTypeWords t ts).1, (takeTypeWords t ts).2 ++ us) := by
  cases hk : t.kind == .ident with
  | true => simp only [takeTypeWords, hk, if_true]
  | false =>
    have hword : t.kind = .word := by
      rw [startsType, hk, Bool.false_and, Bool.or_false, Bool.and_eq_true, beq_iff_eq] at hstart
      exact hstart.1
    exact takeTypeWords_append hword hus

/-- A type that ends the tokens is read in front of others, and goes on with those
that are modifiers. -/
theorem takeType_behind {name : Text} {c : Column} {t : Token} {ts us : List Token}
    (h : takeType name (t :: ts) = .ok (c, [])) (hus : Avoids continuations us)
    (hopen : startsOpen us = false) : takeType name (t :: (ts ++ us)) = .ok (takeModifiers c us) := by
  unfold takeType at h ⊢
  dsimp only at h ⊢
  rw [startsType_append hus]
  cases hstart : startsType t ts with
  | false =>
    rw [hstart, if_neg Bool.false_ne_true] at h
    cases h
  | true =>
    rw [hstart, if_pos rfl] at h
    rw [if_pos rfl, takeTypeWords_behind hstart hus]
    generalize takeTypeWords t ts = taken at h ⊢
    obtain ⟨words, left⟩ := taken
    dsimp only at h ⊢
    cases hparams : takeParams words left with
    | error e => rw [hparams] at h; cases h
    | ok p =>
      obtain ⟨⟨params, suffix⟩, left⟩ := p
      rw [hparams] at h
      rw [takeParams_append hparams hus hopen]
      dsimp only at h ⊢
      rw [takeModifiers_append (Except.ok.inj h)]

theorem takeType_append {name : Text} {c : Column} {t : Token} {ts us : List Token}
    (h : takeType name (t :: ts) = .ok (c, [])) (hus : OptionNext us) :
    takeType name (t :: (ts ++ us)) = .ok (c, us) := by
  rw [takeType_behind h (hus.avoids (by decide)) (hus.startsWithPunct ['(']), takeModifiers_options c hus]

end Column

/-! ## Constraints -/

theorem afterWords?_cons (w : String) (words : List String) (t : Token) (ts : List Token) :
    afterWords? (w :: words) (t :: ts) = if t.isWord w.toList then afterWords? words ts else none := by
  rw [afterWords?, List.map_cons, startsWithWords]
  cases t.isWord w.toList <;> rfl

/-- Behind its first word a sequence of keywords is not completed by options. -/
theorem afterWords?_behind {w : String} {words : List String} {t : Token} {ts us : List Token}
    (h : Avoids words us) :
    afterWords? (w :: words) (t :: (ts ++ us)) = (afterWords? (w :: words) (t :: ts)).map (· ++ us) := by
  rw [afterWords?_cons, afterWords?_cons, afterWords?_append h]
  split <;> rfl

/-- The reading of a constraint, once its keywords are there, finds one. -/
def Finds (r : Reading (Option Constraint)) : Prop := ∀ rest, r ≠ .ok (none, rest)

theorem finds_primaryKey (name : Option Text) (ts : List Token) : Finds (primaryKey name ts) := by
  intro rest h
  dsimp only [primaryKey] at h
  split at h <;> cases h

theorem finds_uniqueKey (name : Option Text) (ts : List Token) : Finds (uniqueKey name ts) := by
  intro rest h
  rw [uniqueKey_eq] at h
  dsimp only at h
  split at h <;> cases h

theorem finds_foreignKey (name : Option Text) (ts : List Token) : Finds (foreignKey name ts) := by
  intro rest h
  dsimp only [foreignKey] at h
  split at h
  · cases h
  · split at h
    · cases h
    · split at h <;> cases h

theorem finds_plainIndex (ts : List Token) : Finds (plainIndex ts) := by
  intro rest h
  dsimp only [plainIndex] at h
  split at h <;> cases h

/-- The tokens are no constraint: they start with none of its keywords. -/
theorem takeConstraint_eq_none_iff {ts rest : List Token} :
    takeConstraint ts = .ok (none, rest) ↔ takeConstraintName ts = (none, rest) ∧
      afterWords? ["PRIMARY", "KEY"] rest = none ∧ afterWords? ["UNIQUE"] rest = none ∧
      afterWords? ["FOREIGN", "KEY"] rest = none ∧ afterCheck? rest = none ∧ startsIndex rest = false := by
  constructor
  · intro h
    unfold takeConstraint at h
    generalize takeConstraintName ts = taken at h ⊢
    obtain ⟨name, us⟩ := taken
    dsimp only at h
    split at h
    · exact absurd h (finds_primaryKey _ _ _)
    rename_i hprimary
    split at h
    · exact absurd h (finds_uniqueKey _ _ _)
    rename_i hunique
    split at h
    · exact absurd h (finds_foreignKey _ _ _)
    rename_i hforeign
    split at h
    · split at h <;> cases h
    rename_i hcheck
    split at h
    · cases h
    split at h
    · exact absurd h (finds_plainIndex _ _)
    · rename_i hindex
      cases h
      exact ⟨rfl, hprimary, hunique, hforeign, hcheck, Bool.eq_false_iff.2 hindex⟩
  · rintro ⟨hname, hprimary, hunique, hforeign, hcheck, hindex⟩
    unfold takeConstraint
    rw [hname]
    dsimp only
    rw [hprimary, hunique, hforeign, hcheck]
    dsimp only
    rw [hindex]
    rfl

theorem continuesIndex_append {t : Token} {ts us : List Token} (hus : OptionNext us) :
    continuesIndex (t :: (ts ++ us)) = continuesIndex (t :: ts) := by
  rw [continuesIndex, continuesIndex, startsOpen_append (hus.startsWithPunct ['(']),
    startsWithWordOf_append (hus.avoids (by decide))]

theorem afterKeyWord?_cons (t : Token) (ts : List Token) :
    afterKeyWord? (t :: ts) = if t.isWord "KEY" || t.isWord "INDEX" then some ts else none := by
  rw [afterKeyWord?, afterWords?_cons, afterWords?_cons]
  cases t.isWord "KEY" <;> cases t.isWord "INDEX" <;> rfl

/-- The tokens in front of options start an index only if they do so alone, unless
they are the keywords of an index and nothing else. -/
theorem startsIndex_append {r t : Token} {ts us : List Token} (hus : OptionNext us)
    (halone : (indexType? [r]).isSome = true → (t.isWord "KEY" || t.isWord "INDEX") = true → ts ≠ []) :
    startsIndex (r :: t :: (ts ++ us)) = startsIndex (r :: t :: ts) := by
  have htype : ∀ us, indexType? (r :: us) = indexType? [r] := fun _ => rfl
  rw [startsIndex, startsIndex, htype, htype (t :: ts), List.drop_one, List.drop_one, List.tail_cons,
    List.tail_cons, afterKeyWord?_cons, afterKeyWord?_cons, afterKeyWord?_cons, afterKeyWord?_cons]
  cases hindex : (indexType? [r]).isSome with
  | true =>
    rw [if_pos rfl, if_pos rfl]
    cases hkey : (t.isWord "KEY" || t.isWord "INDEX") with
    | true =>
      cases ts with
      | nil => exact absurd rfl (halone hindex hkey)
      | cons x ts => exact continuesIndex_append hus
    | false => exact continuesIndex_append hus
  | false =>
    rw [if_neg Bool.false_ne_true, if_neg Bool.false_ne_true]
    cases r.isWord "KEY" || r.isWord "INDEX" with
    | true => exact continuesIndex_append hus
    | false => rfl

/-- A keyword that does not start with a bracket can name something. -/
theorem isIdentifier_of_isWord {t : Token} {c : Char} {w : Text} (h : t.isWord (c :: w) = true)
    (hc : c ≠ '[') : t.isIdentifier = true := by
  obtain ⟨hkind, hupper⟩ := isWord_iff.1 h
  have hsuffix : isArraySuffix t.value = false := by
    unfold isArraySuffix
    split
    · rename_i rest hvalue
      rw [hvalue] at hupper
      exact absurd (List.cons.inj hupper).1.symm hc
    · rfl
  rw [Token.isIdentifier, hkind, hsuffix]
  rfl

/-- A keyword of an index behind CONSTRAINT is the name of the constraint. -/
theorem not_isWord_of_reserved {t : Token}
    (h : ¬ (t.isIdentifier && !t.isWordOf ["PRIMARY", "UNIQUE", "FOREIGN", "CHECK"]) = true) :
    ∀ w ∈ ["FULLTEXT", "SPATIAL", "KEY", "INDEX"], t.isWord w.toList = false := by
  have hwords : ∀ v ∈ ["FULLTEXT", "SPATIAL", "KEY", "INDEX"],
      (v.toList.head?.any (· != '[')) = true ∧
        ∀ u ∈ ["PRIMARY", "UNIQUE", "FOREIGN", "CHECK"], v.toList ≠ u.toList := by decide
  intro w hw
  obtain ⟨hbracket, hother⟩ := hwords w hw
  cases hword : t.isWord w.toList with
  | false => rfl
  | true =>
    refine absurd ?_ h
    rw [Bool.and_eq_true, Bool.not_eq_true', isWordOf_eq_any, List.any_eq_false]
    refine ⟨?_, fun u hu => ?_⟩
    · generalize w.toList = v at hbracket hword
      cases v with
      | nil => cases hbracket
      | cons c v => exact isIdentifier_of_isWord hword (by simpa using hbracket)
    · rw [isWord_unique hword (hother u hu)]
      exact Bool.false_ne_true

theorem takeConstraintName_cases {n t : Token} {ts rest : List Token}
    (h : takeConstraintName (n :: t :: ts) = (none, rest)) (us : List Token) :
    rest = n :: t :: ts ∧ takeConstraintName (n :: t :: (ts ++ us)) = (none, n :: t :: (ts ++ us)) ∨
      rest = t :: ts ∧ takeConstraintName (n :: t :: (ts ++ us)) = (none, t :: (ts ++ us)) ∧
        ¬ (t.isIdentifier && !t.isWordOf ["PRIMARY", "UNIQUE", "FOREIGN", "CHECK"]) = true := by
  unfold takeConstraintName at h ⊢
  rw [afterWords?_cons] at h ⊢
  cases hn : n.isWord "CONSTRAINT".toList with
  | false =>
    rw [hn, if_neg Bool.false_ne_true] at h
    cases h
    exact .inl ⟨rfl, rfl⟩
  | true =>
    rw [hn, if_pos rfl] at h
    replace h : (if (t.isIdentifier && !t.isWordOf ["PRIMARY", "UNIQUE", "FOREIGN", "CHECK"]) = true
        then (some t.name, ts) else (none, t :: ts)) = (none, rest) := h
    split at h
    · cases h
    · rename_i hreserved
      cases h
      exact .inr ⟨rfl, if_neg hreserved, hreserved⟩

theorem startsIndex_other {r : Token} (rs : List Token)
    (h : ∀ w ∈ ["FULLTEXT", "SPATIAL", "KEY", "INDEX"], r.isWord w.toList = false) :
    startsIndex (r :: rs) = false := by
  have htype : indexType? (r :: rs) = none := by
    rw [indexType?, h "FULLTEXT" (by decide), h "SPATIAL" (by decide)]
    rfl
  rw [startsIndex, htype, afterKeyWord?_cons, h "KEY" (by decide), h "INDEX" (by decide)]
  rfl

/-- Tokens that are no constraint are none in front of options. -/
theorem takeConstraint_append {n t : Token} {ts rest us : List Token} (hus : OptionNext us)
    (h : takeConstraint (n :: t :: ts) = .ok (none, rest))
    (halone : (indexType? [n]).isSome = true → (t.isWord "KEY" || t.isWord "INDEX") = true → ts ≠ []) :
    takeConstraint (n :: t :: (ts ++ us)) = .ok (none, rest ++ us) := by
  obtain ⟨hname, hprimary, hunique, hforeign, hcheck, hindex⟩ := takeConstraint_eq_none_iff.1 h
  -- The tokens behind a keyword CONSTRAINT that names nothing; they are not empty.
  have hstep : ∃ r rs, rest = r :: rs ∧
      takeConstraintName (n :: t :: (ts ++ us)) = (none, r :: (rs ++ us)) ∧
      startsIndex (r :: (rs ++ us)) = false := by
    rcases takeConstraintName_cases hname us with ⟨rfl, hname'⟩ | ⟨rfl, hname', hreserved⟩
    · exact ⟨n, t :: ts, rfl, hname', (startsIndex_append hus halone).trans hindex⟩
    · exact ⟨t, ts, rfl, hname', startsIndex_other _ (not_isWord_of_reserved hreserved)⟩
  obtain ⟨r, rs, rfl, hname, hindex⟩ := hstep
  refine takeConstraint_eq_none_iff.2 ⟨hname, ?_, ?_, ?_, ?_, hindex⟩
  · rw [List.cons_append, afterWords?_behind (hus.avoids (by decide)), hprimary]
    rfl
  · rw [List.cons_append, afterWords?_behind (hus.avoids (by decide)), hunique]
    rfl
  · rw [List.cons_append, afterWords?_behind (hus.avoids (by decide)), hforeign]
    rfl
  · unfold afterCheck? at hcheck ⊢
    rw [List.cons_append, afterWords?_behind (hus.avoids (by decide))]
    cases hafter : afterWords? ["CHECK"] (r :: rs) with
    | none => rfl
    | some behind =>
      rw [hafter] at hcheck
      dsimp only [Option.map_some] at hcheck ⊢
      rw [startsOpen_append (hus.startsWithPunct ['('])]
      split at hcheck
      · cases hcheck
      · rename_i hopen
        exact if_neg hopen

/-! ## Columns -/

/-- The tokens are a name and a type, of the column `c` without options, and no
constraint. -/
structure IsColumnHead (name : Token) (type : List Token) (c : Column) : Prop where
  name_isIdentifier : name.isIdentifier = true
  type_ne_nil : type ≠ []
  takeType : Column.takeType name.name type = .ok (c, [])
  no_constraint : ∃ rest, takeConstraint (name :: type) = .ok (none, rest)

/-- The name and the type are the keywords of an index, and nothing else. -/
def IsIndexHead (name : Token) (type : List Token) : Prop :=
  name.isWordOf ["FULLTEXT", "SPATIAL"] = true ∧ (Spells ["KEY"] type ∨ Spells ["INDEX"] type)

theorem isIndexHead_of_indexType? {name t : Token} {ts : List Token}
    (htype : (indexType? [name]).isSome = true)
    (hkey : (t.isWord "KEY" || t.isWord "INDEX") = true) (hts : ts = []) :
    IsIndexHead name (t :: ts) := by
  subst hts
  rw [Bool.or_eq_true] at hkey
  refine ⟨?_, hkey.imp (fun h => ⟨h, trivial⟩) fun h => ⟨h, trivial⟩⟩
  rw [isWordOf_eq_any, List.any_eq_true]
  rw [indexType?] at htype
  split at htype
  · exact ⟨"FULLTEXT", by decide, ‹_›⟩
  · split at htype
    · exact ⟨"SPATIAL", by decide, ‹_›⟩
    · cases htype

/-- A clause of a name, a type and options is the column with these options. -/
theorem Clause.ofTokens_options {name : Token} {type : List Token} {c : Column} {os : List SpelledOption}
    (hhead : IsColumnHead name type c) (hindex : ¬ IsIndexHead name type) (hos : ¬ MeetsAction os) :
    Clause.ofTokens (name :: (type ++ optionTokens os)) =
      .ok (.column ((os.map SpelledOption.option).foldl Column.apply c).bare) := by
  obtain ⟨hname, hne, htype, rest, hconstraint⟩ := hhead
  have hnext := optionNext_tokens os
  cases type with
  | nil => exact absurd rfl hne
  | cons t ts =>
    have hnone := takeConstraint_append hnext hconstraint fun hi hk hts =>
      hindex (isIndexHead_of_indexType? hi hk hts)
    unfold Clause.ofTokens
    dsimp only [List.cons_append]
    rw [hnone]
    dsimp only
    rw [Column.read, if_pos hname, Column.takeType_append htype hnext]
    dsimp only
    rw [readAll_tokens hos]
    dsimp only [Except.map]
    -- The text of the options is all that the two columns differ in.
    rw [Column.foldl_apply_bare, Column.foldl_apply_bare]
    rfl

theorem Clause.read_of_ofTokens {s : Text} {c : Column}
    (h : Clause.ofTokens (TableDialects.bare (tokenize s)) = .ok (.column c)) :
    ∃ a, Clause.read s = .ok (.column a) ∧ a.bare = c := by
  have hread := Clause.read_eq_ofTokens s
  rw [h] at hread
  cases hclause : Clause.read s with
  | error e => rw [hclause] at hread; cases hread
  | ok clause =>
    rw [hclause] at hread
    cases clause with
    | constraint k => cases hread
    | column a => exact ⟨a, rfl, Clause.column.inj (Except.ok.inj hread)⟩

theorem isExpression_singleton {t : Token} (h : Balanced [t]) : IsExpression [t] := by
  refine ⟨List.cons_ne_nil _ _, h, fun front u behind hsplit hne _ => ?_⟩
  cases front with
  | nil => exact absurd rfl hne
  | cons v front => simp at hsplit

theorem not_meetsAction {os : List SpelledOption}
    (h : ∀ u ∈ os, ∀ e, u.option = .onUpdate e → ¬ Spells ["SET"] e) : ¬ MeetsAction os := by
  rintro ⟨r, u, x, hin, -, ⟨e, he, hset⟩, -⟩
  exact h u (hin.subset (by simp)) e he hset

namespace Clause

/-- The two clauses have the same name and type and the same options, of pairwise
different kinds, in two orders. -/
structure Reordered (name : Token) (type : List Token) (c : Column) (os ps : List SpelledOption)
    (s t : Text) : Prop where
  head : IsColumnHead name type c
  kinds : (os.map fun o => o.option.kind).Nodup
  perm : os.Perm ps
  tokens : TableDialects.bare (tokenize s) = name :: (type ++ optionTokens os)
  tokens' : TableDialects.bare (tokenize t) = name :: (type ++ optionTokens ps)

/-- The two clauses are read as columns that differ in the places of their tokens
and in the text of their options at most. -/
def SameColumn (s t : Text) : Prop :=
  ∃ a b, Clause.read s = .ok (.column a) ∧ Clause.read t = .ok (.column b) ∧ a.bare = b.bare

/-- Options may be written in any order, and each sets its field. Only ON UPDATE
SET must not stand between REFERENCES and NULL or DEFAULT, and the name and the
type must not be the keywords of an index. -/
theorem read_options_perm {name : Token} {type : List Token} {c : Column} {os ps : List SpelledOption}
    {s t : Text} (h : Reordered name type c os ps s t) (hindex : ¬ IsIndexHead name type)
    (hos : ¬ MeetsAction os) (hps : ¬ MeetsAction ps) :
    SameColumn s t ∧ ∃ a, Clause.read s = .ok (.column a) ∧
      a.bare = ((os.map SpelledOption.option).foldl Column.apply c).bare := by
  obtain ⟨hhead, hkinds, hperm, hs, ht⟩ := h
  obtain ⟨a, ha, hbare⟩ :=
    read_of_ofTokens ((congrArg ofTokens hs).trans (ofTokens_options hhead hindex hos))
  obtain ⟨b, hb, hbare'⟩ :=
    read_of_ofTokens ((congrArg ofTokens ht).trans (ofTokens_options hhead hindex hps))
  have hsame := Column.foldl_apply_perm (by rwa [List.map_map]) (hperm.map SpelledOption.option) c
  exact ⟨⟨a, b, ha, hb, by rw [hbare, hbare', hsame]⟩, a, ha, hbare⟩

/-- A reference with an action, an update, a default and NOT NULL, forwards and
backwards. -/
theorem read_options_perm_backwards :
    SameColumn "a INT REFERENCES t ON DELETE SET NULL ON UPDATE x DEFAULT 1 NOT NULL"
      "a INT NOT NULL DEFAULT 1 ON UPDATE x REFERENCES t ON DELETE SET NULL" := by
  have hreference : ColumnOption.Spelled (.references ⟨.ofParts "t" [], [], [(.delete, .setNull)]⟩)
      ([Token.keyword "REFERENCES"] ++ ([Token.keyword "t"] ++ ([] ++
        (["ON", "DELETE", "SET", "NULL"].map Token.keyword ++ [])))) :=
    .references ⟨rfl, trivial⟩ (@Dotted.last (Token.keyword "t") rfl) rfl
      (.cons ⟨rfl, rfl, rfl, rfl, trivial⟩ .nil)
  have hupdate : ColumnOption.Spelled (.onUpdate [Token.keyword "x"])
      ([Token.keyword "ON", Token.keyword "UPDATE"] ++ [Token.keyword "x"]) :=
    .onUpdate ⟨rfl, rfl, trivial⟩ (isExpression_singleton (by decide)) fun action => by cases action <;> rfl
  have hdefault : ColumnOption.Spelled (.default [⟨.number, "1", 0, true⟩])
      ([Token.keyword "DEFAULT"] ++ [⟨.number, "1", 0, true⟩]) :=
    .default ⟨rfl, trivial⟩ (isExpression_singleton (by decide))
  have hnotNull : ColumnOption.Spelled .notNull [Token.keyword "NOT", Token.keyword "NULL"] :=
    .notNull ⟨rfl, rfl, trivial⟩
  have hkinds : [OptionKind.reference, .onUpdate, .default, .nullability].Nodup := by decide
  have htokens : TableDialects.bare
      (tokenize "a INT REFERENCES t ON DELETE SET NULL ON UPDATE x DEFAULT 1 NOT NULL") =
      ⟨.word, "a", 0, false⟩ ::
        (["INT", "REFERENCES", "t", "ON", "DELETE", "SET", "NULL", "ON", "UPDATE", "x", "DEFAULT"].map
          Token.keyword ++ ⟨.number, "1", 0, true⟩ :: ["NOT", "NULL"].map Token.keyword) := by
    decide +kernel
  have htokens' : TableDialects.bare
      (tokenize "a INT NOT NULL DEFAULT 1 ON UPDATE x REFERENCES t ON DELETE SET NULL") =
      ⟨.word, "a", 0, false⟩ :: (["INT", "NOT", "NULL", "DEFAULT"].map Token.keyword ++
        ⟨.number, "1", 0, true⟩ ::
          ["ON", "UPDATE", "x", "REFERENCES", "t", "ON", "DELETE", "SET", "NULL"].map Token.keyword) := by
    decide +kernel
  have hreordered : Reordered ⟨.word, "a", 0, false⟩ [Token.keyword "INT"] _
      [⟨_, _, hreference⟩, ⟨_, _, hupdate⟩, ⟨_, _, hdefault⟩, ⟨_, _, hnotNull⟩] _
      "a INT REFERENCES t ON DELETE SET NULL ON UPDATE x DEFAULT 1 NOT NULL"
      "a INT NOT NULL DEFAULT 1 ON UPDATE x REFERENCES t ON DELETE SET NULL" :=
    ⟨⟨rfl, List.cons_ne_nil _ _, rfl, _, rfl⟩, hkinds, (List.reverse_perm _).symm, htokens, htokens'⟩
  refine (read_options_perm hreordered (fun h => absurd h.1 (by decide)) (not_meetsAction ?_)
    (not_meetsAction ?_)).1
  all_goals
    intro u hu e he hset
    simp only [List.reverse_cons, List.reverse_nil, List.nil_append, List.cons_append, List.mem_cons,
      List.not_mem_nil, or_false] at hu
    rcases hu with rfl | rfl | rfl | rfl <;> cases he
    exact absurd hset.1 (by decide)

/-- Behind a reference ON UPDATE SET NULL is an action, and elsewhere an update and
NULL. Behind FULLTEXT KEY a check is a list of columns, and elsewhere a check. -/
theorem read_options_perm_fails :
    (∃ name type c os ps, ¬ IsIndexHead name type ∧ Reordered name type c os ps
      "a INT REFERENCES t ON UPDATE SET NULL" "a INT NULL ON UPDATE SET REFERENCES t") ∧
    ¬ SameColumn "a INT REFERENCES t ON UPDATE SET NULL" "a INT NULL ON UPDATE SET REFERENCES t" ∧
    (∃ name type c os ps, ¬ MeetsAction os ∧ ¬ MeetsAction ps ∧ Reordered name type c os ps
      "FULLTEXT KEY CHECK (a) NOT NULL" "FULLTEXT KEY NOT NULL CHECK (a)") ∧
    ¬ SameColumn "FULLTEXT KEY CHECK (a) NOT NULL" "FULLTEXT KEY NOT NULL CHECK (a)" := by
  refine ⟨?_, ?_, ?_, ?_⟩
  · have hreference : ColumnOption.Spelled (.references ⟨.ofParts "t" [], [], []⟩)
        ([Token.keyword "REFERENCES"] ++ ([Token.keyword "t"] ++ ([] ++ []))) :=
      .references ⟨rfl, trivial⟩ (@Dotted.last (Token.keyword "t") rfl) rfl .nil
    have hupdate : ColumnOption.Spelled (.onUpdate [Token.keyword "SET"])
        ([Token.keyword "ON", Token.keyword "UPDATE"] ++ [Token.keyword "SET"]) :=
      .onUpdate ⟨rfl, rfl, trivial⟩ (isExpression_singleton (by decide)) fun action => by cases action <;> rfl
    have hnull : ColumnOption.Spelled .null [Token.keyword "NULL"] := .null ⟨rfl, trivial⟩
    have hkinds : [OptionKind.reference, .onUpdate, .nullability].Nodup := by decide
    have htokens : TableDialects.bare (tokenize "a INT REFERENCES t ON UPDATE SET NULL") =
        ⟨.word, "a", 0, false⟩ ::
          ["INT", "REFERENCES", "t", "ON", "UPDATE", "SET", "NULL"].map Token.keyword := by
      decide +kernel
    have htokens' : TableDialects.bare (tokenize "a INT NULL ON UPDATE SET REFERENCES t") =
        ⟨.word, "a", 0, false⟩ ::
          ["INT", "NULL", "ON", "UPDATE", "SET", "REFERENCES", "t"].map Token.keyword := by
      decide +kernel
    exact ⟨⟨.word, "a", 0, false⟩, [Token.keyword "INT"], _,
      [⟨_, _, hreference⟩, ⟨_, _, hupdate⟩, ⟨_, _, hnull⟩], _, fun h => absurd h.1 (by decide),
      ⟨rfl, List.cons_ne_nil _ _, rfl, _, rfl⟩, hkinds, (List.reverse_perm _).symm, htokens, htokens'⟩
  · -- NULL is left for the column in the second clause only.
    rintro ⟨a, b, ha, hb, hsame⟩
    have hread : ((Clause.read "a INT REFERENCES t ON UPDATE SET NULL").toOption.any fun k =>
        (Statement.columnsOf [k]).all fun c => c.notNull == none) = true := by decide +kernel
    have hread' : ((Clause.read "a INT NULL ON UPDATE SET REFERENCES t").toOption.any fun k =>
        (Statement.columnsOf [k]).all fun c => c.notNull == some false) = true := by decide +kernel
    rw [ha] at hread
    rw [hb] at hread'
    have hnone : a.notNull = none := by simpa [Except.toOption, Statement.columnsOf] using hread
    have hsome : b.notNull = some false := by simpa [Except.toOption, Statement.columnsOf] using hread'
    have hfield : a.bare.notNull = b.bare.notNull := by rw [hsame]
    cases hnone.symm.trans (hfield.trans hsome)
  · have hcheck : ColumnOption.Spelled (.check [⟨.word, "a", 0, false⟩])
        ([Token.keyword "CHECK"] ++
          [⟨.punct, "(", 0, true⟩, ⟨.word, "a", 0, false⟩, ⟨.punct, ")", 0, false⟩]) :=
      .check ⟨rfl, trivial⟩ ⟨⟨.punct, "(", 0, true⟩, ⟨.punct, ")", 0, false⟩, rfl, rfl, rfl, by decide⟩
    have hnotNull : ColumnOption.Spelled .notNull [Token.keyword "NOT", Token.keyword "NULL"] :=
      .notNull ⟨rfl, rfl, trivial⟩
    have htokens : TableDialects.bare (tokenize "FULLTEXT KEY CHECK (a) NOT NULL") =
        [⟨.word, "FULLTEXT", 0, false⟩, Token.keyword "KEY", Token.keyword "CHECK", ⟨.punct, "(", 0, true⟩,
          ⟨.word, "a", 0, false⟩, ⟨.punct, ")", 0, false⟩, Token.keyword "NOT", Token.keyword "NULL"] := by
      decide +kernel
    have htokens' : TableDialects.bare (tokenize "FULLTEXT KEY NOT NULL CHECK (a)") =
        [⟨.word, "FULLTEXT", 0, false⟩, Token.keyword "KEY", Token.keyword "NOT", Token.keyword "NULL",
          Token.keyword "CHECK", ⟨.punct, "(", 0, true⟩, ⟨.word, "a", 0, false⟩,
          ⟨.punct, ")", 0, false⟩] := by
      decide +kernel
    refine ⟨⟨.word, "FULLTEXT", 0, false⟩, [Token.keyword "KEY"], _, [⟨_, _, hcheck⟩, ⟨_, _, hnotNull⟩],
      [⟨_, _, hnotNull⟩, ⟨_, _, hcheck⟩], not_meetsAction ?_, not_meetsAction ?_,
      ⟨rfl, List.cons_ne_nil _ _, rfl, _, rfl⟩, by simp [ColumnOption.kind], .swap _ _ _, htokens, htokens'⟩
    all_goals
      intro u hu e he
      simp only [List.mem_cons, List.not_mem_nil, or_false] at hu
      rcases hu with rfl | rfl <;> cases he
  · -- The first clause is no column at all.
    rintro ⟨a, -, ha, -⟩
    have hread : ((Clause.read "FULLTEXT KEY CHECK (a) NOT NULL").toOption.any fun k =>
        (Statement.columnsOf [k]).isEmpty) = true := by decide +kernel
    rw [ha] at hread
    cases hread

end Clause

end TableDialects
