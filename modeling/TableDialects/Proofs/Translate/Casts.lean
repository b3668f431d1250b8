import TableDialects.Proofs.Reading.Groups
import TableDialects.Proofs.Reading.Order
import TableDialects.Proofs.Translate.Places

/- Casts and the types behind them. A cast is cut out of an expression with the type
   that follows it, and what a type is there was written down a second time, beside
   the reader of columns. The two agree on most types: the theorem takes a type that
   the reader reads to its end (`TypeTokens`) and says when the cut removes it
   exactly (`stripCasts_type_iff`). They differ on CHARACTER or CHAR behind NATIONAL,
   on a zone behind parameters, on modifiers and on array suffixes with a length, all
   of which are left in the expression, and on words such as WITH behind a type that
   does not go on with them, which are cut out with it. -/
namespace TableDialects

/-! ## The tokens of a type -/

namespace Column

structure TypeTokens where
  /-- The first word, or a quoted name. -/
  first : Token
  /-- The words behind it that belong to the name. -/
  more : List Token
  /-- The parameters with their parentheses. -/
  params : List Token
  /-- The zone behind the parameters of a time type. -/
  zone : List Token
  /-- Modifiers and array suffixes. -/
  suffixes : List Token

namespace TypeTokens

def tokens (T : TypeTokens) : List Token := T.first :: (T.more ++ (T.params ++ (T.zone ++ T.suffixes)))

/-- Each part is absent or as the reader of columns takes it. -/
structure IsRead (T : TypeTokens) : Prop where
  more : T.more = [] ∨ ∃ words ∈ typeContinuations (Text.upper (Text.lower T.first.value)), Spells words T.more
  params : T.params = [] ∨ ∃ inner, IsGroup inner T.params
  zone : T.zone = [] ∨ T.params ≠ [] ∧ ∃ words ∈ zoneSuffixes, Spells words T.zone
  suffixes : ∀ t ∈ T.suffixes, t.isWordOf typeModifiers = true ∨ t.isArray = true

theorem IsRead.zone_eq_nil {T : TypeTokens} (h : T.IsRead) (hparams : T.params = []) : T.zone = [] :=
  h.zone.resolve_right fun hzone => hzone.1 hparams

end TypeTokens

theorem takeSequence_spells (candidates : List (List String)) (ts : List Token) :
    ∃ front, ts = front ++ (takeSequence candidates ts).2 ∧
      (front = [] ∨ ∃ words ∈ candidates, Spells words front) := by
  fun_induction takeSequence candidates ts with
  | case1 ts => exact ⟨[], rfl, .inl rfl⟩
  | case2 words candidates ts rest hwords =>
    obtain ⟨front, hfront, hts⟩ := spells_of_afterWords? hwords
    exact ⟨front, hts, .inr ⟨words, List.mem_cons_self, hfront⟩⟩
  | case3 words candidates ts hwords ih =>
    obtain ⟨front, hts, hfront⟩ := ih
    refine ⟨front, hts, hfront.imp_right ?_⟩
    rintro ⟨words', hmem, hspells⟩
    exact ⟨words', List.mem_cons_of_mem words hmem, hspells⟩

theorem takeTypeWords_spells (t : Token) (ts : List Token) :
    ∃ front, ts = front ++ (takeTypeWords t ts).2 ∧
      (front = [] ∨ ∃ words ∈ typeContinuations (Text.upper (Text.lower t.value)), Spells words front) := by
  unfold takeTypeWords
  split
  · exact ⟨[], rfl, .inl rfl⟩
  · exact takeSequence_spells _ ts

theorem suffixes_of_takeModifiers {c c' : Column} {ts : List Token} (h : takeModifiers c ts = (c', [])) :
    ∀ t ∈ ts, t.isWordOf typeModifiers = true ∨ t.isArray = true := by
  fun_induction takeModifiers c ts with
  | case1 c => exact List.forall_mem_nil _
  | case2 c t ts ht ih => exact List.forall_mem_cons.2 ⟨.inl ht, ih h⟩
  | case3 c t ts ht ha ih => exact List.forall_mem_cons.2 ⟨.inr ha, ih h⟩
  | case4 => cases h

theorem takeParams_spells {words : List Text} {p : Text × List Text} {ts rest : List Token}
    (h : takeParams words ts = .ok (p, rest)) :
    ∃ params zone, ts = params ++ (zone ++ rest) ∧ (params = [] ∨ ∃ inner, IsGroup inner params) ∧
      (zone = [] ∨ params ≠ [] ∧ ∃ words ∈ zoneSuffixes, Spells words zone) := by
  unfold takeParams at h
  split at h
  · split at h
    · cases h
    · rename_i inner left hgroup
      obtain ⟨group, hisgroup, rfl⟩ := isGroup_of_takeGroup hgroup
      have hne : group ≠ [] := by
        obtain ⟨o, c, rfl, -⟩ := hisgroup
        exact List.cons_ne_nil _ _
      obtain ⟨zone, hleft, hzone⟩ : ∃ zone, left = zone ++ (if words == ["timestamp".toList] ||
          words == ["time".toList] then takeSequence zoneSuffixes left else ([], left)).2 ∧
            (zone = [] ∨ ∃ words ∈ zoneSuffixes, Spells words zone) := by
        split
        · exact takeSequence_spells zoneSuffixes left
        · exact ⟨[], rfl, .inl rfl⟩
      cases h
      exact ⟨group, zone, congrArg (group ++ ·) hleft, .inr ⟨inner, hisgroup⟩,
        hzone.imp_right fun hz => ⟨hne, hz⟩⟩
  · cases h
    exact ⟨[], [], rfl, .inl rfl, .inl rfl⟩

/-- A type that is read to the end of the tokens has its parts there. -/
theorem typeTokens_of_takeType {name : Text} {c : Column} {t : Token} {ts : List Token}
    (h : takeType name (t :: ts) = .ok (c, [])) :
    ∃ T : TypeTokens, T.tokens = t :: ts ∧ T.IsRead ∧ startsType t ts = true ∧
      (takeTypeWords t ts).2 = T.params ++ (T.zone ++ T.suffixes) := by
  unfold takeType at h
  dsimp only at h
  cases hstart : startsType t ts with
  | false =>
    rw [hstart, if_neg Bool.false_ne_true] at h
    cases h
  | true =>
    rw [hstart, if_pos rfl] at h
    obtain ⟨more, hts, hmore⟩ := takeTypeWords_spells t ts
    cases hparams : takeParams (takeTypeWords t ts).1 (takeTypeWords t ts).2 with
    | error e => rw [hparams] at h; cases h
    | ok p =>
      obtain ⟨⟨params, suffix⟩, left⟩ := p
      rw [hparams] at h
      obtain ⟨group, zone, hleft, hgroup, hzone⟩ := takeParams_spells hparams
      rw [hleft] at hts
      refine ⟨⟨t, more, group, zone, left⟩, ?_, ⟨hmore, hgroup, hzone, ?_⟩, rfl, hleft⟩
      · rw [TypeTokens.tokens, hts]
      · exact suffixes_of_takeModifiers (Except.ok.inj h)

/-- The token may go on with the type: in front of some tokens it is read as a part
of it. -/
def Continues (name : Text) (ts : List Token) (t : Token) : Prop :=
  ∃ more c left, takeType name (ts ++ t :: more) = .ok (c, left) ∧ left.length ≤ more.length

theorem avoids_of_kind {words : List String} {t : Token} {ts : List Token} (h : t.kind ≠ .word) :
    Avoids words (t :: ts) := by
  intro u hu w _
  obtain rfl : t = u := Option.some.inj hu
  rw [Token.isWord, beq_eq_false_iff_ne.2 h, Bool.false_and]

theorem continues_of_isArray {name : Text} {c : Column} {t u : Token} {ts : List Token}
    (h : takeType name (t :: ts) = .ok (c, [])) (hu : u.isArray = true) : Continues name (t :: ts) u := by
  have hkind : u.kind = .ident := by
    rw [Token.isArray, Bool.and_eq_true, beq_iff_eq] at hu
    exact hu.1
  have hmodifier : u.isWordOf typeModifiers = false := by rw [Token.isWordOf, hkind]; rfl
  have hopen : u.isOpen = false := by rw [Token.isOpen, Token.isPunct, hkind]; rfl
  refine ⟨[], { c with isArray := true }, [], ?_, Nat.le_refl _⟩
  rw [List.cons_append, takeType_behind h (avoids_of_kind (by rw [hkind]; decide)) hopen, takeModifiers,
    hmodifier, if_neg Bool.false_ne_true, if_pos hu, takeModifiers]

/-- Behind a type that is a name alone, a parenthesis opens parameters. -/
theorem continues_of_isOpen {name : Text} {t u : Token} {ts : List Token} (hstart : startsType t ts = true)
    (hwords : (takeTypeWords t ts).2 = []) (hu : u.isOpen = true) : Continues name (t :: ts) u := by
  have hkind : u.kind ≠ .word := by
    intro hk
    rw [Token.isOpen, Token.isPunct, hk] at hu
    cases hu
  let close : Token := ⟨.punct, [')'], 0, false⟩
  have havoids : Avoids continuations [u, close] := avoids_of_kind hkind
  have hgroup : takeGroup [u, close] = .ok ([], []) := by
    rw [takeGroup, if_pos hu]
    rfl
  have hopens : startsOpen [u, close] = true := hu
  refine ⟨[close], ?_⟩
  rw [List.cons_append, takeType]
  dsimp only
  rw [startsType_append havoids, hstart, if_pos rfl, takeTypeWords_behind hstart havoids, hwords]
  dsimp only [List.nil_append]
  rw [takeParams, if_pos hopens, hgroup]
  dsimp only
  have hzone : (if (takeTypeWords t ts).1 == ["timestamp".toList] || (takeTypeWords t ts).1 == ["time".toList] then
      takeSequence zoneSuffixes [] else ([], [])) = (([], []) : List Text × List Token) := by
    split <;> rfl
  rw [hzone]
  exact ⟨_, [], rfl, Nat.zero_le _⟩

end Column

namespace Expression
open Column (TypeTokens typeContinuations typeModifiers zoneSuffixes takeType Continues)

variable {ts us pre post : List Token} {t u : Token}

/-! ## Where a cast ends -/

theorem isCast_of_kind (h : t.kind ≠ .op) : isCast t = false := by
  rw [isCast, beq_eq_false_iff_ne.2 h, Bool.false_and]

theorem stripCasts_cons (h : isCast t = false) (ts : List Token) :
    stripCasts (t :: ts) = t :: stripCasts ts := by
  rw [stripCasts, h, if_neg Bool.false_ne_true]

/-- Parameters are skipped up to the parenthesis that closes them, and all tokens are
if there is none. -/
theorem afterClose_eq (depth : Nat) (ts : List Token) :
    afterClose (depth + 1) ts = ((closeGroup? depth ts).map Prod.snd).getD [] := by
  fun_induction closeGroup? depth ts with
  | case1 depth => rw [afterClose.eq_def]; rfl
  | case2 depth t ts ho inner rest hgroup ih => simp [afterClose, ho, ih, hgroup]
  | case3 depth t ts ho hgroup ih => simp [afterClose, ho, ih, hgroup]
  | case4 t ts ho hc => simp [afterClose, ho, hc]
  | case5 t ts ho hc depth inner rest hgroup ih => simp [afterClose, ho, hc, ih, hgroup]
  | case6 t ts ho hc depth hgroup ih => simp [afterClose, ho, hc, ih, hgroup]
  | case7 depth t ts ho hc inner rest hgroup ih => simp [afterClose, ho, hc, ih, hgroup]
  | case8 depth t ts ho hc hgroup ih => simp [afterClose, ho, hc, ih, hgroup]

theorem afterParams_group {inner group : List Token} (h : IsGroup inner group) (rest : List Token) :
    afterParams (group ++ rest) = rest := by
  obtain ⟨o, c, rfl, ho, hc, hstays, hdepth⟩ := h
  rw [List.cons_append, afterParams, if_pos ho, afterClose_eq, List.append_assoc, List.singleton_append,
    closeGroup?_of_balanced hc hstays hdepth]
  rfl

theorem afterParams_of_not_open (h : startsOpen ts = false) : afterParams ts = ts := by
  cases ts with
  | nil => rfl
  | cons t ts =>
    have ht : t.isOpen = false := h
    rw [afterParams, ht, if_neg Bool.false_ne_true]

theorem isArray_of_empty (h : (t.kind == .ident && t.value == "[]".toList) = true) : t.isArray = true := by
  rw [Bool.and_eq_true, beq_iff_eq, beq_iff_eq] at h
  rw [Token.isArray, h.1, h.2]
  rfl

theorem afterArray_of_not_array (h : ∀ t ∈ ts.head?, t.isArray = false) : afterArray ts = ts := by
  cases ts with
  | nil => rfl
  | cons t ts =>
    rw [afterArray, if_neg]
    intro hempty
    have harray := isArray_of_empty hempty
    rw [h t rfl] at harray
    cases harray

/-! ## Tokens between casts -/

/-- The token is part of no type: it is no word, no name and no parenthesis that
opens. -/
def EndsType (t : Token) : Prop := t.kind ≠ .word ∧ t.kind ≠ .ident ∧ t.isOpen = false

/-- No cast among the tokens is left inside of its parameters at their end. -/
def CastsClosed (ts : List Token) : Prop :=
  ∀ t rest, t :: rest <:+ ts → isCast t = true → startsOpen (afterTypeName rest) = true →
    ∃ inner left, takeGroup (afterTypeName rest) = .ok (inner, left)

theorem CastsClosed.of_suffix (h : CastsClosed ts) (hus : us <:+ ts) : CastsClosed us :=
  fun t rest hsuffix => h t rest (hsuffix.trans hus)

theorem endsType_of_isCast (h : isCast t = true) : EndsType t := by
  rw [isCast, Bool.and_eq_true, beq_iff_eq] at h
  rw [EndsType, Token.isOpen, Token.isPunct, h.1]
  exact ⟨by decide, by decide, rfl⟩

theorem endsType_of_isClose (h : t.isClose = true) : EndsType t := by
  have hkind : t.kind = .punct := by
    rw [Token.isClose, Token.isPunct, Bool.and_eq_true, beq_iff_eq] at h
    exact h.1
  refine ⟨?_, ?_, isPunct_unique h (by decide)⟩ <;> rw [hkind] <;> decide

theorem EndsType.isWordOf (h : EndsType t) (words : List String) : t.isWordOf words = false := by
  rw [Token.isWordOf, beq_eq_false_iff_ne.2 h.1, Bool.false_and]

theorem EndsType.afterTypeName (h : EndsType u) (ts us : List Token) :
    afterTypeName (ts ++ u :: us) = Expression.afterTypeName ts ++ u :: us := by
  cases ts with
  | nil =>
    have hname : u.isIdentifier = false := by
      rw [Token.isIdentifier, beq_eq_false_iff_ne.2 h.1, beq_eq_false_iff_ne.2 h.2.1]
      rfl
    show Expression.afterTypeName (u :: us) = u :: us
    rw [Expression.afterTypeName, hname]
    rfl
  | cons t ts =>
    rw [List.cons_append, Expression.afterTypeName, Expression.afterTypeName]
    split
    · rw [List.dropWhile_append]
      split
      · rename_i hempty
        rw [List.isEmpty_iff.1 hempty, List.dropWhile_cons_of_neg (by rw [h.isWordOf]; decide), List.nil_append]
      · rfl
    · rfl

theorem EndsType.afterParams (h : EndsType u) (us : List Token)
    (hclosed : startsOpen ts = true → ∃ inner left, takeGroup ts = .ok (inner, left)) :
    afterParams (ts ++ u :: us) = Expression.afterParams ts ++ u :: us := by
  cases hopen : startsOpen ts with
  | true =>
    obtain ⟨inner, left, hgroup⟩ := hclosed hopen
    obtain ⟨group, hisgroup, rfl⟩ := isGroup_of_takeGroup hgroup
    rw [List.append_assoc, afterParams_group hisgroup, afterParams_group hisgroup]
  | false =>
    have hbehind : startsOpen (ts ++ u :: us) = false := by
      cases ts with
      | nil => exact h.2.2
      | cons t ts => exact hopen
    rw [afterParams_of_not_open hopen, afterParams_of_not_open hbehind]

theorem EndsType.afterArray (h : EndsType u) (ts us : List Token) :
    afterArray (ts ++ u :: us) = Expression.afterArray ts ++ u :: us := by
  cases ts with
  | nil =>
    refine afterArray_of_not_array fun t ht => ?_
    obtain rfl : u = t := Option.some.inj ht
    rw [Token.isArray, beq_eq_false_iff_ne.2 h.2.1, Bool.false_and]
  | cons t ts =>
    rw [List.cons_append, Expression.afterArray, Expression.afterArray]
    split <;> rfl

/-- A token that is part of no type ends the cast before it, so that what stands in
front of it and what follows are stripped apart. -/
theorem stripCasts_append (hts : CastsClosed ts) (hu : EndsType u) (us : List Token) :
    stripCasts (ts ++ u :: us) = stripCasts ts ++ stripCasts (u :: us) := by
  fun_induction stripCasts ts with
  | case1 => rfl
  | case2 t ts ht ih =>
    have hclosed := hts t ts (List.suffix_refl _) ht
    have hsuffix : afterCastType ts <:+ t :: ts := (afterCastType_suffix ts).trans (List.suffix_cons t ts)
    rw [List.cons_append, stripCasts, if_pos ht, ← ih (hts.of_suffix hsuffix), afterCastType,
      hu.afterTypeName, hu.afterParams us hclosed, hu.afterArray]
    rfl
  | case3 t ts ht ih =>
    rw [List.cons_append, stripCasts, if_neg ht, ih (hts.of_suffix (List.suffix_cons t ts)), List.cons_append]

/-- Parameters that open among balanced tokens are closed there. -/
theorem castsClosed_of_balanced (h : Balanced ts) : CastsClosed ts := by
  intro t rest hsuffix ht hopen
  have hwithin : afterTypeName rest <:+ ts :=
    (afterTypeName_suffix rest).trans ((List.suffix_cons t rest).trans hsuffix)
  generalize afterTypeName rest = us at hopen hwithin ⊢
  obtain ⟨front, rfl⟩ := hwithin
  cases us with
  | nil => cases hopen
  | cons o us =>
    have hfront : 0 ≤ depthAfter 0 front := depthAfter_nonneg (Int.le_refl 0) h.1
    have hdepth := h.2
    rw [depthAfter_append, depthAfter_add] at hdepth
    exact takeGroup_of_depth hopen (by omega)

/-- Stripped tokens leave some of their own in front of what follows. -/
def Leaves (ts : List Token) : Prop :=
  ∀ us, ∃ kept, stripCasts (ts ++ us) = kept ++ stripCasts us ∧ (ts ≠ [] → kept ≠ [])

theorem leaves_nil : Leaves [] := fun _ => ⟨[], rfl, id⟩

theorem Leaves.cons (h : Leaves ts) (ht : isCast t = false) : Leaves (t :: ts) := by
  intro us
  obtain ⟨kept, hkept, -⟩ := h us
  refine ⟨t :: kept, ?_, fun _ => List.cons_ne_nil t kept⟩
  rw [List.cons_append, stripCasts_cons ht, hkept, List.cons_append]

theorem Leaves.append (hts : Leaves ts) (hus : Leaves us) : Leaves (ts ++ us) := by
  intro rest
  obtain ⟨kept, hkept, hne⟩ := hts (us ++ rest)
  obtain ⟨kept', hkept', hne'⟩ := hus rest
  refine ⟨kept ++ kept', by rw [List.append_assoc, hkept, hkept', List.append_assoc], ?_⟩
  intro happend hnil
  rw [List.append_eq_nil_iff] at hnil
  rcases ts with _ | ⟨t, ts⟩
  · exact hne' happend hnil.2
  · exact hne (List.cons_ne_nil t ts) hnil.1

theorem Leaves.stripCasts_eq_iff (h : Leaves ts) (us : List Token) :
    stripCasts (ts ++ us) = stripCasts us ↔ ts = [] := by
  obtain ⟨kept, hkept, hne⟩ := h us
  constructor
  · intro heq
    by_contra hts
    exact hne hts (List.append_left_eq_self.1 (hkept.symm.trans heq))
  · rintro rfl
    rfl

theorem leaves_of_kind (h : ∀ t ∈ ts, t.kind ≠ .op) : Leaves ts := by
  induction ts with
  | nil => exact leaves_nil
  | cons t ts ih =>
    exact (ih fun u hu => h u (List.mem_cons_of_mem t hu)).cons (isCast_of_kind (h t List.mem_cons_self))

theorem leaves_group {inner group : List Token} (h : IsGroup inner group) : Leaves group := by
  obtain ⟨o, c, rfl, ho, hc, hbalanced⟩ := h
  have hpunct : ∀ {u : Token} {p : Text}, u.isPunct p = true → isCast u = false := by
    intro u p hu
    rw [Token.isPunct, Bool.and_eq_true, beq_iff_eq] at hu
    exact isCast_of_kind (by rw [hu.1]; decide)
  intro us
  refine ⟨o :: (stripCasts inner ++ [c]), ?_, fun _ => List.cons_ne_nil _ _⟩
  rw [List.cons_append, stripCasts_cons (hpunct ho), List.append_assoc, List.singleton_append,
    stripCasts_append (castsClosed_of_balanced hbalanced) (endsType_of_isClose hc), stripCasts_cons (hpunct hc)]
  simp

/-! ## What is left of a type -/

/-- The words that go on with a name are all known to the cut, or CHARACTER or CHAR
comes first, which is not. -/
theorem continuation_cases (first : Text) : ∀ words ∈ typeContinuations first,
    (∀ w ∈ words, w ∈ castWords) ∨ ∃ w ∈ words.head?, w ∉ castWords := by
  unfold typeContinuations
  split
  · decide
  split
  · decide
  split
  · decide
  split
  · decide
  · exact List.forall_mem_nil _

theorem isWordOf_castWords {w : String} (h : t.isWord w.toList = true) :
    t.isWordOf castWords = decide (w ∈ castWords) := by
  rw [isWordOf_eq_any]
  by_cases hw : w ∈ castWords
  · rw [decide_eq_true hw]
    exact List.any_eq_true.2 ⟨w, hw, h⟩
  · rw [decide_eq_false hw, List.any_eq_false]
    intro v hv hword
    have hvw : v = w := String.toList_inj.1 ((isWord_iff.1 hword).2.symm.trans (isWord_iff.1 h).2)
    exact hw (hvw ▸ hv)

theorem Spells.castWords {words : List String} (h : Spells words ts) (hwords : ∀ w ∈ words, w ∈ castWords) :
    ∀ t ∈ ts, t.isWordOf Expression.castWords = true := by
  induction words generalizing ts with
  | nil =>
    rw [h.nil]
    exact List.forall_mem_nil _
  | cons w words ih =>
    obtain ⟨t, more, rfl, ht, hmore⟩ := h.cons
    refine List.forall_mem_cons.2 ⟨?_, ih hmore fun v hv => hwords v (List.mem_cons_of_mem w hv)⟩
    rw [isWordOf_castWords ht]
    exact decide_eq_true (hwords w List.mem_cons_self)

theorem Spells.kind {words : List String} (h : Spells words ts) : ∀ t ∈ ts, t.kind = .word := by
  induction words generalizing ts with
  | nil =>
    rw [h.nil]
    exact List.forall_mem_nil _
  | cons w words ih =>
    obtain ⟨t, more, rfl, ht, hmore⟩ := h.cons
    exact List.forall_mem_cons.2 ⟨(isWord_iff.1 ht).1, ih hmore⟩

variable {T : TypeTokens}

/-- The words behind the first are all cut out with it, or none of them is. -/
theorem more_cases (h : T.IsRead) : (∀ t ∈ T.more, t.isWordOf castWords = true) ∨
    ∃ t rest, T.more = t :: rest ∧ t.kind = .word ∧ t.isWordOf castWords = false := by
  rcases h.more with hnil | ⟨words, hwords, hspells⟩
  · rw [hnil]
    exact .inl (List.forall_mem_nil _)
  · rcases continuation_cases _ words hwords with hcast | ⟨w, hw, hother⟩
    · exact .inl (Spells.castWords hspells hcast)
    · right
      cases words with
      | nil => cases hw
      | cons v words =>
        obtain rfl : v = w := Option.some.inj hw
        obtain ⟨t, rest, hmore, ht, -⟩ := hspells.cons
        exact ⟨t, rest, hmore, (isWord_iff.1 ht).1, by rw [isWordOf_castWords ht, decide_eq_false hother]⟩

/-- What the cut leaves of a type: all behind its first word, if it does not know the
second; else the zone and the suffixes, but for one empty array suffix. -/
def left (T : TypeTokens) : List Token :=
  if T.more.all fun t => t.isWordOf castWords then afterArray (T.zone ++ T.suffixes)
  else T.more ++ (T.params ++ (T.zone ++ T.suffixes))

theorem suffix_kind (h : t.isWordOf typeModifiers = true ∨ t.isArray = true) :
    t.isWordOf castWords = false ∧ t.isOpen = false ∧ t.kind ≠ .op := by
  have hapart : ∀ w ∈ typeModifiers, w ∉ castWords := by decide
  rcases h with hmodifier | harray
  · rw [isWordOf_eq_any, List.any_eq_true] at hmodifier
    obtain ⟨w, hw, hword⟩ := hmodifier
    have hkind := (isWord_iff.1 hword).1
    refine ⟨?_, by rw [Token.isOpen, Token.isPunct, hkind]; rfl, by rw [hkind]; decide⟩
    rw [isWordOf_castWords hword, decide_eq_false (hapart w hw)]
  · rw [Token.isArray, Bool.and_eq_true, beq_iff_eq] at harray
    rw [Token.isWordOf, Token.isOpen, Token.isPunct, harray.1]
    exact ⟨rfl, rfl, by decide⟩

theorem zone_kind (h : T.IsRead) : ∀ t ∈ T.zone, t.kind = .word := by
  rcases h.zone with hnil | ⟨-, words, -, hspells⟩
  · rw [hnil]
    exact List.forall_mem_nil _
  · exact Spells.kind hspells

theorem leaves_left (h : T.IsRead) : Leaves (left T) := by
  have hmore : Leaves T.more := by
    rcases h.more with hnil | ⟨words, -, hspells⟩
    · rw [hnil]
      exact leaves_nil
    · exact leaves_of_kind fun t ht => by rw [Spells.kind hspells t ht]; decide
  have hparams : Leaves T.params := by
    rcases h.params with hnil | ⟨inner, hgroup⟩
    · rw [hnil]
      exact leaves_nil
    · exact leaves_group hgroup
  have hbehind : ∀ t ∈ T.zone ++ T.suffixes, t.kind ≠ .op := by
    rw [List.forall_mem_append]
    exact ⟨fun t ht => by rw [zone_kind h t ht]; decide, fun t ht => (suffix_kind (h.suffixes t ht)).2.2⟩
  unfold left
  split
  · exact leaves_of_kind fun t ht => hbehind t ((afterArray_suffix _).subset ht)
  · exact hmore.append (hparams.append (leaves_of_kind hbehind))

theorem afterArray_eq_nil_iff : afterArray ts = [] ↔
    ts = [] ∨ ∃ t, ts = [t] ∧ t.kind = .ident ∧ t.value = "[]".toList := by
  cases ts with
  | nil => simp [afterArray]
  | cons t ts =>
    rw [afterArray]
    split
    · rename_i hempty
      rw [Bool.and_eq_true, beq_iff_eq, beq_iff_eq] at hempty
      constructor
      · rintro rfl
        exact .inr ⟨t, rfl, hempty⟩
      · rintro (hnil | ⟨u, hu, -⟩)
        · cases hnil
        · exact (List.cons.inj hu).2
    · rename_i hempty
      refine ⟨fun hnil => absurd hnil (List.cons_ne_nil t ts), ?_⟩
      rintro (hnil | ⟨u, hu, hkind, hvalue⟩)
      · cases hnil
      · rw [(List.cons.inj hu).1, hkind, hvalue] at hempty
        exact absurd rfl hempty

/-- Nothing is left of a type if the cut knows its words, no zone stands behind its
parameters, and it has no suffix but an empty array suffix. -/
theorem left_eq_nil_iff (h : T.IsRead) : left T = [] ↔
    (∀ t ∈ T.more, t.isWordOf castWords = true) ∧ T.zone = [] ∧
      (T.suffixes = [] ∨ ∃ t, T.suffixes = [t] ∧ t.value = "[]".toList) := by
  have hident : ∀ t, t ∈ T.suffixes → t.value = "[]".toList → t.kind = .ident := by
    intro t ht hvalue
    rcases h.suffixes t ht with hmodifier | harray
    · rw [Token.isWordOf, Token.upper, hvalue, show (typeModifiers.any fun w =>
        Text.upper "[]".toList == w.toList) = false by decide, Bool.and_false] at hmodifier
      cases hmodifier
    · rw [Token.isArray, Bool.and_eq_true, beq_iff_eq] at harray
      exact harray.1
  unfold left
  split
  · rename_i hall
    rw [List.all_eq_true] at hall
    rw [afterArray_eq_nil_iff, List.append_eq_nil_iff]
    constructor
    · rintro (⟨hzone, hsuffixes⟩ | ⟨t, ht, hkind, hvalue⟩)
      · exact ⟨hall, hzone, .inl hsuffixes⟩
      · have hzone : T.zone = [] := by
          cases hz : T.zone with
          | nil => rfl
          | cons z zone =>
            rw [hz, List.cons_append, List.cons.injEq] at ht
            have hword := zone_kind h z (by rw [hz]; exact List.mem_cons_self)
            rw [ht.1, hkind] at hword
            cases hword
        rw [hzone, List.nil_append] at ht
        exact ⟨hall, hzone, .inr ⟨t, ht, hvalue⟩⟩
    · rintro ⟨-, hzone, hsuffixes | ⟨t, ht, hvalue⟩⟩
      · exact .inl ⟨hzone, hsuffixes⟩
      · refine .inr ⟨t, by rw [hzone, ht]; rfl, hident t ?_ hvalue, hvalue⟩
        rw [ht]
        exact List.mem_singleton.2 rfl
  · rename_i hall
    rw [List.all_eq_true] at hall
    refine ⟨fun hnil => ?_, fun hleft => absurd hleft.1 hall⟩
    rw [(List.append_eq_nil_iff.1 hnil).1] at hall
    exact absurd (List.forall_mem_nil _) hall

theorem afterTypeName_tokens (hfirst : T.first.isIdentifier = true) (post : List Token) :
    afterTypeName (T.tokens ++ post) = (T.more ++ (T.params ++ (T.zone ++ T.suffixes ++ post))).dropWhile
      fun t => t.isWordOf castWords := by
  rw [TypeTokens.tokens, List.cons_append, afterTypeName, if_pos hfirst, List.append_assoc, List.append_assoc]

theorem afterArray_append (hpost : ∀ t ∈ post.head?, t.isArray = false) (ts : List Token) :
    afterArray (ts ++ post) = afterArray ts ++ post := by
  cases ts with
  | nil => exact afterArray_of_not_array hpost
  | cons t ts =>
    rw [List.cons_append, afterArray, afterArray]
    split <;> rfl

/-- Behind the words of a type the cut goes on with its parameters, wherever another
token than a word known to it comes next. -/
theorem afterParams_tokens (h : T.IsRead)
    (hopen : T.params = [] → T.suffixes = [] → startsOpen post = false)
    (hword : T.params = [] → T.suffixes = [] → startsWithWordOf castWords post = false) :
    afterParams ((T.params ++ (T.zone ++ T.suffixes ++ post)).dropWhile fun t => t.isWordOf castWords) =
      T.zone ++ T.suffixes ++ post := by
  rcases h.params with hnil | ⟨inner, hgroup⟩
  · have hzone := h.zone_eq_nil hnil
    rw [hnil, hzone, List.nil_append, List.nil_append]
    -- A suffix, or a token behind the type, comes next.
    have hnext : startsWithWordOf castWords (T.suffixes ++ post) = false ∧
        startsOpen (T.suffixes ++ post) = false := by
      cases hsuffixes : T.suffixes with
      | nil => exact ⟨hword hnil hsuffixes, hopen hnil hsuffixes⟩
      | cons t suffixes =>
        obtain ⟨hcast, hparen, -⟩ := suffix_kind (h.suffixes t (by rw [hsuffixes]; exact List.mem_cons_self))
        exact ⟨hcast, hparen⟩
    have hstop : (T.suffixes ++ post).dropWhile (fun t => t.isWordOf castWords) = T.suffixes ++ post := by
      cases hbehind : T.suffixes ++ post with
      | nil => rfl
      | cons t behind =>
        rw [hbehind] at hnext
        have ht : t.isWordOf castWords = false := hnext.1
        exact List.dropWhile_cons_of_neg (by rw [ht]; exact Bool.false_ne_true)
    rw [hstop, afterParams_of_not_open hnext.2]
  · obtain ⟨o, c, hparams, ho, -⟩ := id hgroup
    have hcast : o.isWordOf castWords = false := by
      rw [Token.isOpen, Token.isPunct, Bool.and_eq_true, beq_iff_eq] at ho
      rw [Token.isWordOf, ho.1]
      rfl
    have hstop : (T.params ++ (T.zone ++ T.suffixes ++ post)).dropWhile (fun t => t.isWordOf castWords) =
        T.params ++ (T.zone ++ T.suffixes ++ post) := by
      rw [hparams, List.cons_append]
      exact List.dropWhile_cons_of_neg (by rw [hcast]; exact Bool.false_ne_true)
    rw [hstop, afterParams_group hgroup]

/-- A cast takes its type but for what is left of it, unless it goes on into the words
behind. -/
theorem afterCastType_tokens (h : T.IsRead) (hfirst : T.first.isIdentifier = true)
    (harray : ∀ t ∈ post.head?, t.isArray = false)
    (hopen : T.params = [] → T.suffixes = [] → startsOpen post = false)
    (hword : (∀ t ∈ T.more, t.isWordOf castWords = true) → T.params = [] → T.suffixes = [] →
      startsWithWordOf castWords post = false) :
    afterCastType (T.tokens ++ post) = left T ++ post := by
  rw [afterCastType, afterTypeName_tokens hfirst]
  rcases more_cases h with hall | ⟨t, rest, hmore, hkind, hother⟩
  · rw [List.dropWhile_append_of_pos hall, afterParams_tokens h hopen (hword hall), afterArray_append harray,
      left, if_pos (List.all_eq_true.2 hall)]
  · have hopens : ∀ us, startsOpen (t :: us) = false := by
      intro us
      rw [startsOpen, startsWithPunct, Token.isPunct, hkind]
      rfl
    have hnot : ∀ us, ∀ u ∈ (t :: us).head?, u.isArray = false := by
      intro us u hu
      obtain rfl : t = u := Option.some.inj hu
      rw [Token.isArray, hkind]
      rfl
    have hall : ¬ (T.more.all fun t => t.isWordOf castWords) = true := by
      rw [hmore, List.all_cons, hother]
      exact Bool.false_ne_true
    rw [left, if_neg hall, hmore, List.cons_append,
      List.dropWhile_cons_of_neg (by rw [hother]; exact Bool.false_ne_true), afterParams_of_not_open (hopens _),
      afterArray_of_not_array (hnot _)]
    simp

/-! ## Words behind a type -/

theorem length_stripCasts_afterArray (ts : List Token) :
    (stripCasts (afterArray ts)).length ≤ (stripCasts ts).length := by
  cases ts with
  | nil => exact Nat.le_refl _
  | cons t ts =>
    rw [afterArray]
    split
    · rename_i hempty
      rw [Bool.and_eq_true, beq_iff_eq] at hempty
      rw [stripCasts_cons (isCast_of_kind (by rw [hempty.1]; decide))]
      exact Nat.le_succ _
    · exact Nat.le_refl _

theorem length_stripCasts_afterParams (ts : List Token) :
    (stripCasts (afterParams ts)).length ≤ (stripCasts ts).length := by
  cases ts with
  | nil => exact Nat.le_refl _
  | cons o ts =>
    rw [afterParams]
    split
    · rename_i ho
      cases hclose : closeGroup? 0 ts with
      | none =>
        rw [afterClose_eq, hclose, show stripCasts ((Option.map Prod.snd none).getD []) = [] from by
          rw [Option.map_none, Option.getD_none, stripCasts]]
        exact Nat.zero_le _
      | some p =>
        obtain ⟨inner, rest⟩ := p
        have hgroup : takeGroup (o :: ts) = .ok (inner, rest) := by rw [takeGroup, if_pos ho, hclose]
        obtain ⟨group, hisgroup, hts⟩ := isGroup_of_takeGroup hgroup
        obtain ⟨kept, hkept, -⟩ := leaves_group hisgroup rest
        rw [afterClose_eq, hclose, hts, hkept, List.length_append]
        exact Nat.le_add_left _ _
    · exact Nat.le_refl _

theorem length_stripCasts_dropWhile (ts : List Token) :
    (stripCasts (ts.dropWhile fun t => t.isWordOf castWords)).length ≤ (stripCasts ts).length := by
  induction ts with
  | nil => exact Nat.le_refl _
  | cons t ts ih =>
    rw [List.dropWhile_cons]
    split
    · rename_i ht
      rw [Token.isWordOf, Bool.and_eq_true, beq_iff_eq] at ht
      rw [stripCasts_cons (isCast_of_kind (by rw [ht.1]; decide))]
      exact Nat.le_succ_of_le ih
    · exact Nat.le_refl _

/-- Where the cut goes on into the words behind a type, less is left of them. -/
theorem length_stripCasts_eaten (hfirst : T.first.isIdentifier = true)
    (hall : ∀ t ∈ T.more, t.isWordOf castWords = true) (hbare : T.params ++ (T.zone ++ T.suffixes) = [])
    (hword : startsWithWordOf castWords post = true) :
    (stripCasts (afterCastType (T.tokens ++ post))).length < (stripCasts post).length := by
  have hrest : T.params ++ (T.zone ++ T.suffixes ++ post) = post := by
    rw [← List.append_assoc, hbare, List.nil_append]
  cases post with
  | nil => cases hword
  | cons w post =>
    have hw : w.isWordOf castWords = true := hword
    have hkind : w.kind = .word := by
      rw [Token.isWordOf, Bool.and_eq_true, beq_iff_eq] at hw
      exact hw.1
    rw [afterCastType, afterTypeName_tokens hfirst, hrest, List.dropWhile_append_of_pos hall,
      List.dropWhile_cons, if_pos hw, stripCasts_cons (isCast_of_kind (by rw [hkind]; decide)), List.length_cons]
    exact Nat.lt_succ_of_le (Nat.le_trans (length_stripCasts_afterArray _)
      (Nat.le_trans (length_stripCasts_afterParams _) (length_stripCasts_dropWhile post)))

theorem EndsType.not_continues {name : Text} {c : Column} (hu : EndsType u)
    (h : takeType name (t :: ts) = .ok (c, [])) : ¬ Continues name (t :: ts) u := by
  rintro ⟨more, c', left, hread, hshort⟩
  have harray : u.isArray = false := by rw [Token.isArray, beq_eq_false_iff_ne.2 hu.2.1, Bool.false_and]
  rw [List.cons_append, Column.takeType_behind h (Column.avoids_of_kind hu.1) hu.2.2, Column.takeModifiers,
    hu.isWordOf, harray] at hread
  cases hread
  exact absurd hshort (Nat.not_succ_le_self more.length)

/-- A cast with a type that is read to its end, in front of tokens that do not go on
with the type, is cut out exactly if the words of the type are known to the cut, no
zone stands behind its parameters, it has no suffix but an empty array suffix, and
no word known to the cut stands behind a type that ends with its name. -/
theorem stripCasts_type_iff {name : Text} {c : Column} {pre ts post : List Token} {cast : Token}
    (hcast : isCast cast = true) (hpre : CastsClosed pre) (hname : startsIdentifier ts = true)
    (hread : takeType name ts = .ok (c, [])) (hpost : ∀ t ∈ post.head?, ¬ Continues name ts t) :
    ∃ T : TypeTokens, T.tokens = ts ∧ T.IsRead ∧
      (stripCasts (pre ++ cast :: (ts ++ post)) = stripCasts pre ++ stripCasts post ↔
        (∀ t ∈ T.more, t.isWordOf castWords = true) ∧ T.zone = [] ∧
          (T.suffixes = [] ∨ ∃ t, T.suffixes = [t] ∧ t.value = "[]".toList) ∧
          (T.params = [] → T.suffixes = [] → startsWithWordOf castWords post = false)) := by
  cases ts with
  | nil => cases hname
  | cons t ts =>
    obtain ⟨T, hT, hisread, hstart, hwords⟩ := Column.typeTokens_of_takeType hread
    have hfirst : T.first.isIdentifier = true := by
      rw [TypeTokens.tokens, List.cons.injEq] at hT
      rw [hT.1]
      exact hname
    have harray : ∀ u ∈ post.head?, u.isArray = false := by
      intro u hu
      rw [← Bool.not_eq_true]
      exact fun hin => hpost u hu (Column.continues_of_isArray hread hin)
    have hopen : T.params = [] → T.suffixes = [] → startsOpen post = false := by
      intro hparams hsuffixes
      have hzone := hisread.zone_eq_nil hparams
      rw [hparams, hzone, hsuffixes] at hwords
      cases post with
      | nil => rfl
      | cons u post =>
        rw [← Bool.not_eq_true]
        exact fun hu => hpost u rfl (Column.continues_of_isOpen hstart hwords hu)
    refine ⟨T, hT, hisread, ?_⟩
    rw [← hT, stripCasts_append hpre (endsType_of_isCast hcast), List.append_cancel_left_eq, stripCasts,
      if_pos hcast]
    by_cases hword : (∀ t ∈ T.more, t.isWordOf castWords = true) → T.params = [] → T.suffixes = [] →
        startsWithWordOf castWords post = false
    · -- The cut ends with the type: what is left stands before the tokens behind.
      rw [afterCastType_tokens hisread hfirst harray hopen hword]
      rw [(leaves_left hisread).stripCasts_eq_iff, left_eq_nil_iff hisread]
      constructor
      · rintro ⟨hmore, hzone, hsuffixes⟩
        exact ⟨hmore, hzone, hsuffixes, hword hmore⟩
      · rintro ⟨hmore, hzone, hsuffixes, -⟩
        exact ⟨hmore, hzone, hsuffixes⟩
    · -- It goes on into the words behind, and less is left of these.
      simp only [Classical.not_imp, Bool.not_eq_false] at hword
      obtain ⟨hmore, hparams, hsuffixes, hword⟩ := hword
      have hzone := hisread.zone_eq_nil hparams
      have hshorter := length_stripCasts_eaten hfirst hmore (by rw [hparams, hzone, hsuffixes]; rfl) hword
      refine ⟨fun heq => ?_, fun hcut => ?_⟩
      · rw [heq] at hshorter
        exact absurd hshorter (Nat.lt_irrefl _)
      · rw [hcut.2.2.2 hparams hsuffixes] at hword
        cases hword

/-- A zone behind parameters, inside of a parenthesis. -/
theorem stripCasts_type_iff_zone :
    let pre : List Token := [⟨.punct, ['('], 0, true⟩, ⟨.word, "now".toList, 1, false⟩,
      ⟨.punct, ['('], 4, false⟩, ⟨.punct, [')'], 5, false⟩]
    let cast : Token := ⟨.op, "::".toList, 6, false⟩
    let ts : List Token := [⟨.word, "timestamp".toList, 8, false⟩, ⟨.punct, ['('], 17, false⟩,
      ⟨.number, ['3'], 18, false⟩, ⟨.punct, [')'], 19, false⟩, ⟨.word, "with".toList, 21, true⟩,
      ⟨.word, "time".toList, 26, true⟩, ⟨.word, "zone".toList, 31, true⟩]
    let post : List Token := [⟨.punct, [')'], 35, false⟩]
    let c : Column := {
      name := ['a'], rawType := "timestamp(3) with time zone".toList
      baseType := "timestamp with time zone".toList, typeParams := "(3)".toList }
    isCast cast = true ∧ CastsClosed pre ∧ startsIdentifier ts = true ∧ takeType ['a'] ts = .ok (c, []) ∧
      (∀ t ∈ post.head?, ¬ Continues ['a'] ts t) ∧
      ∃ T : TypeTokens, T.tokens = ts ∧ T.IsRead ∧
        (stripCasts (pre ++ cast :: (ts ++ post)) = stripCasts pre ++ stripCasts post ↔
          (∀ t ∈ T.more, t.isWordOf castWords = true) ∧ T.zone = [] ∧
            (T.suffixes = [] ∨ ∃ t, T.suffixes = [t] ∧ t.value = "[]".toList) ∧
            (T.params = [] → T.suffixes = [] → startsWithWordOf castWords post = false)) := by
  intro pre cast ts post c
  have hcast : isCast cast = true := by decide
  have hnone : ∀ t ∈ pre, isCast t = false := by decide
  have hpre : CastsClosed pre := by
    intro t rest hsuffix ht
    rw [hnone t (hsuffix.subset List.mem_cons_self)] at ht
    cases ht
  have hname : startsIdentifier ts = true := by decide
  have hread : takeType ['a'] ts = .ok (c, []) := rfl
  have hpost : ∀ t ∈ post.head?, ¬ Continues ['a'] ts t := by
    intro t ht
    obtain rfl : _ = t := Option.some.inj ht
    exact (endsType_of_isClose rfl).not_continues hread
  exact ⟨hcast, hpre, hname, hread, hpost, stripCasts_type_iff hcast hpre hname hread hpost⟩

end Expression
end TableDialects
