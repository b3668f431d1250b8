import TableDialects.Proofs.Reading.Section
import TableDialects.Proofs.Written.Type

/- The options of a column as they may be written. `ColumnOption.Spelled` says
   which tokens stand for an option. In front of further options these tokens are
   read as the option, whatever it is and whatever follows
   (`ColumnOption.Spelled.read`); only a reference looks further ahead, for its
   actions. -/
namespace TableDialects

/-! ## Keywords -/

/-- The two sequences of keywords differ before one of them ends. -/
def differ (words words' : List String) : Bool := (words.zip words').any fun p => p.1 != p.2

theorem afterWords?_differ {words words' : List String} {front : List Token} (h : Spells words front)
    (hd : differ words words' = true) (rest : List Token) : afterWords? words' (front ++ rest) = none := by
  have hstarts : startsWithWords (words'.map String.toList) (front ++ rest) = false := by
    induction words generalizing words' front with
    | nil => cases hd
    | cons w words ih =>
      obtain ⟨t, more, rfl, ht, hmore⟩ := h.cons
      cases words' with
      | nil => cases hd
      | cons w' words' =>
        rw [List.map_cons, List.cons_append, startsWithWords, Bool.and_eq_false_iff]
        by_cases hw : w = w'
        · subst hw
          refine .inr (ih hmore ?_)
          simpa [differ] using hd
        · exact .inl (isWord_unique ht fun heq => hw (String.toList_inj.1 heq))
  rw [afterWords?, hstarts]
  rfl

theorem isWordOf_eq_any (t : Token) (words : List String) :
    t.isWordOf words = words.any fun w => t.isWord w.toList := by
  unfold Token.isWordOf Token.isWord
  cases t.kind == .word <;> simp

theorem startsWithWordOf_append {words : List String} {ts us : List Token} (h : Avoids words us) :
    startsWithWordOf words (ts ++ us) = startsWithWordOf words ts := by
  cases ts with
  | cons t ts => rfl
  | nil =>
    cases us with
    | nil => rfl
    | cons u us =>
      show u.isWordOf words = false
      rw [isWordOf_eq_any, List.any_eq_false]
      intro w hw
      rw [h u rfl w hw]
      exact Bool.false_ne_true

/-- The keywords that the options of a column start with. -/
def optionLeads : List (List String) :=
  [["NOT", "NULL"], ["NULL"], ["DEFAULT"], ["AUTO_INCREMENT"], ["AUTOINCREMENT"], ["IDENTITY"],
    ["PRIMARY", "KEY"], ["UNIQUE"], ["CHECK"], ["REFERENCES"], ["ON", "UPDATE"], ["COMMENT"], ["COLLATE"]]

def OptionNext (ts : List Token) : Prop :=
  ts = [] ∨ ∃ words ∈ optionLeads, ∃ front rest, Spells words front ∧ ts = front ++ rest

theorem optionNext_nil : OptionNext [] := .inl rfl

theorem Spells.optionNext {words : List String} {front : List Token} (h : Spells words front)
    (hwords : words ∈ optionLeads) (rest : List Token) : OptionNext (front ++ rest) :=
  .inr ⟨words, hwords, front, rest, h, rfl⟩

namespace OptionNext

variable {ts : List Token}

/-- The token that comes next is the first keyword of an option. -/
theorem head (h : OptionNext ts) :
    ∀ t ∈ ts.head?, ∃ words ∈ optionLeads, ∃ w ∈ words.head?, t.isWord w.toList = true := by
  intro t ht
  rcases h with rfl | ⟨words, hwords, front, rest, hspells, rfl⟩
  · cases ht
  · cases words with
    | nil => exact absurd hwords (by decide)
    | cons w words =>
      obtain ⟨u, more, rfl, hu, -⟩ := hspells.cons
      cases ht
      exact ⟨w :: words, hwords, w, rfl, hu⟩

theorem avoids (h : OptionNext ts) {words : List String}
    (hw : ∀ lead ∈ optionLeads, ∀ w ∈ lead.head?, w ∉ words) : Avoids words ts := by
  intro t ht v hv
  obtain ⟨lead, hlead, w, hwl, hword⟩ := h.head t ht
  refine isWord_unique hword fun heq => hw lead hlead w hwl ?_
  rwa [String.toList_inj.1 heq]

theorem startsWithPunct (h : OptionNext ts) (p : Text) : TableDialects.startsWithPunct p ts = false := by
  cases ts with
  | nil => rfl
  | cons t ts =>
    obtain ⟨-, -, w, -, hword⟩ := h.head t rfl
    rw [TableDialects.startsWithPunct, Token.isPunct, (isWord_iff.1 hword).1]
    rfl

theorem isArray (h : OptionNext ts) : ∀ t ∈ ts.head?, t.isArray = false := by
  intro t ht
  obtain ⟨-, -, w, -, hword⟩ := h.head t ht
  rw [Token.isArray, (isWord_iff.1 hword).1]
  rfl

theorem startsWithWordOf (h : OptionNext ts) (words : List String)
    (hw : ∀ lead ∈ optionLeads, ∀ w ∈ lead.head?, w ∉ words) :
    TableDialects.startsWithWordOf words ts = false := by
  have happend : TableDialects.startsWithWordOf words ([] ++ ts) = false :=
    startsWithWordOf_append (h.avoids hw)
  exact happend

theorem afterWords? (h : OptionNext ts) (words : List String) {w : String}
    (hw : ∀ lead ∈ optionLeads, ∀ v ∈ lead.head?, v ∉ w :: words) :
    TableDialects.afterWords? (w :: words) ts = none := by
  have happend : TableDialects.afterWords? (w :: words) ([] ++ ts) = none := afterWords?_append (h.avoids hw)
  exact happend

theorem startsOption (h : OptionNext ts) (hne : ts ≠ []) : TableDialects.startsOption ts = true := by
  -- ON starts an option only together with the word behind it; the others do so alone.
  have hleads : ∀ lead ∈ optionLeads, lead = ["ON", "UPDATE"] ∨ ∀ w ∈ lead.head?,
      (w.toList == "ON".toList) = false ∧ (w.toList == "CHARACTER".toList) = false ∧
        (optionWords.any fun v => w.toList == v.toList) = true := by decide +kernel
  rcases h with rfl | ⟨words, hwords, front, rest, hspells, rfl⟩
  · exact absurd rfl hne
  · rcases hleads words hwords with rfl | hplain
    · obtain ⟨on, more, rfl, hon, hmore⟩ := hspells.cons
      obtain ⟨update, more, rfl, hupdate, -⟩ := hmore.cons
      obtain ⟨hkind, hupper⟩ := isWord_iff.1 hon
      obtain ⟨hkind', hupper'⟩ := isWord_iff.1 hupdate
      simp [TableDialects.startsOption, TableDialects.startsWithWordOf, Token.isWordOf, Token.upper,
        hkind, hupper, hkind', hupper']
    · cases words with
      | nil => exact absurd hwords (by decide)
      | cons w words =>
        obtain ⟨t, more, rfl, ht, -⟩ := hspells.cons
        obtain ⟨hon, hcharacter, hoption⟩ := hplain w rfl
        obtain ⟨hkind, hupper⟩ := isWord_iff.1 ht
        rw [List.cons_append, TableDialects.startsOption, hkind, Token.upper, hupper, hon, hcharacter,
          hoption]
        rfl

theorem expressionRest (h : OptionNext ts) : TableDialects.expressionRest 0 ts = ([], ts) := by
  cases ts with
  | nil => rfl
  | cons t ts =>
    rw [TableDialects.expressionRest, h.startsOption (List.cons_ne_nil t ts)]
    rfl

end OptionNext

/-! ## Expressions and groups -/

/-- Whether a token starts an option does not depend on the options behind. -/
theorem startsOption_append {t : Token} {ts us : List Token} (h : OptionNext us) :
    startsOption (t :: (ts ++ us)) = startsOption (t :: ts) := by
  rw [startsOption, startsOption, startsWithWordOf_append (h.avoids (by decide)),
    startsWithWordOf_append (h.avoids (by decide))]

/-- The tokens are an expression: parentheses match, and no token behind the first
starts an option outside of them. -/
structure IsExpression (e : List Token) : Prop where
  ne_nil : e ≠ []
  balanced : Balanced e
  inside : ∀ front t behind, e = front ++ t :: behind → front ≠ [] → depthAfter 0 front = 0 →
    startsOption (t :: behind) = false

theorem expressionRest_spelled {depth : Int} {ts us : List Token} (hus : OptionNext us)
    (hdepth : depthAfter depth ts = 0)
    (h : ∀ front t behind, ts = front ++ t :: behind → depthAfter depth front = 0 →
      startsOption (t :: behind) = false) :
    expressionRest depth (ts ++ us) = (ts, us) := by
  -- Along the tokens, from any depth: what stands before the token at hand moves into
  -- the depth, so that the hypothesis about all places of the list is used at each.
  induction ts generalizing depth with
  | nil =>
    obtain rfl : depth = 0 := hdepth
    exact hus.expressionRest
  | cons t ts ih =>
    have hgoes : (depth == 0 && startsOption (t :: (ts ++ us))) = false := by
      rw [startsOption_append hus, Bool.and_eq_false_iff]
      by_cases hd : depth = 0
      · exact .inr (h [] t ts rfl hd)
      · exact .inl (beq_eq_false_iff_ne.2 hd)
    have hrest : ∀ front u behind, ts = front ++ u :: behind → depthAfter (depth + t.turn) front = 0 →
        startsOption (u :: behind) = false := by
      rintro front u behind rfl hfront
      exact h (t :: front) u behind rfl hfront
    rw [List.cons_append, expressionRest, hgoes, if_neg Bool.false_ne_true]
    dsimp only
    rw [ih hdepth hrest]

/-- The first of tokens that never close more than is open closes nothing. -/
theorem turn_of_first {t : Token} {ts : List Token} (h : staysOpen 0 (t :: ts) = true) :
    (if t.isOpen then 1 else 0 : Int) = 0 + t.turn := by
  rw [staysOpen, Bool.and_eq_true, decide_eq_true_eq] at h
  by_cases ho : t.isOpen = true
  · rw [if_pos ho, turn_of_isOpen ho]
    rfl
  · by_cases hc : t.isClose = true
    · rw [turn_of_isClose hc] at h
      exact absurd h.1 (by decide)
    · rw [if_neg ho, turn_of_neither ho hc]
      rfl

theorem IsExpression.takeExpression {e rest : List Token} (h : IsExpression e) (hrest : OptionNext rest) :
    TableDialects.takeExpression (e ++ rest) = .ok (e, rest) := by
  obtain ⟨hne, ⟨hstays, hdepth⟩, hinside⟩ := h
  cases e with
  | nil => exact absurd rfl hne
  | cons t ts =>
    have hmore : expressionRest (0 + t.turn) (ts ++ rest) = (ts, rest) := by
      refine expressionRest_spelled hrest hdepth ?_
      rintro front u behind rfl hfront
      exact hinside (t :: front) u behind rfl (List.cons_ne_nil t front) hfront
    rw [List.cons_append, TableDialects.takeExpression, turn_of_first hstays, hmore]

/-- The tokens are a group in parentheses around `inner`. -/
def IsGroup (inner group : List Token) : Prop :=
  ∃ o c : Token, group = o :: (inner ++ [c]) ∧ o.isOpen = true ∧ c.isClose = true ∧ Balanced inner

theorem IsGroup.startsOpen {inner group : List Token} (h : IsGroup inner group) (rest : List Token) :
    TableDialects.startsOpen (group ++ rest) = true := by
  obtain ⟨o, c, rfl, ho, -⟩ := h
  exact ho

theorem closeGroup?_of_balanced {depth : Nat} {inner : List Token} {c : Token} (hc : c.isClose = true)
    (hstays : staysOpen depth inner = true) (hdepth : depthAfter depth inner = 0) (rest : List Token) :
    closeGroup? depth (inner ++ c :: rest) = some (inner, rest) := by
  induction inner generalizing depth with
  | nil =>
    obtain rfl : depth = 0 := by simpa [depthAfter] using hdepth
    have ho : c.isOpen = false := isPunct_unique hc (by decide)
    rw [List.nil_append, closeGroup?.eq_def]
    simp only [ho, hc, Bool.false_eq_true, if_false, if_true]
  | cons t inner ih =>
    rw [staysOpen, Bool.and_eq_true, decide_eq_true_eq] at hstays
    obtain ⟨hnonneg, hstays⟩ := hstays
    rw [depthAfter_cons] at hdepth
    rw [List.cons_append, closeGroup?.eq_def]
    dsimp only
    by_cases ho : t.isOpen = true
    · rw [turn_of_isOpen ho] at hstays hdepth
      rw [if_pos ho, @ih (depth + 1) hstays hdepth]
    · rw [if_neg ho]
      by_cases hcl : t.isClose = true
      · rw [turn_of_isClose hcl] at hnonneg hstays hdepth
        rw [if_pos hcl]
        cases depth with
        | zero => exact absurd hnonneg (by decide)
        | succ depth =>
          have hdown : ((depth + 1 : Nat) : Int) + -1 = depth := by omega
          rw [hdown] at hstays hdepth
          dsimp only
          rw [ih hstays hdepth]
      · rw [turn_of_neither ho hcl, Int.add_zero] at hstays hdepth
        rw [if_neg hcl, ih hstays hdepth]

theorem IsGroup.takeGroup {inner group : List Token} (h : IsGroup inner group) (rest : List Token) :
    TableDialects.takeGroup (group ++ rest) = .ok (inner, rest) := by
  obtain ⟨o, c, rfl, ho, hc, hstays, hdepth⟩ := h
  rw [List.cons_append, List.append_assoc, List.singleton_append, TableDialects.takeGroup, if_pos ho,
    closeGroup?_of_balanced hc hstays hdepth]

/-- A group that is closed does not depend on what stands behind it. -/
theorem closeGroup?_append {depth : Nat} {ts inner rest : List Token}
    (h : closeGroup? depth ts = some (inner, rest)) (us : List Token) :
    closeGroup? depth (ts ++ us) = some (inner, rest ++ us) := by
  obtain ⟨hstays, hdepth, c, hc, rfl⟩ := closeGroup?_balanced h
  rw [List.append_assoc, List.cons_append, closeGroup?_of_balanced hc hstays hdepth]

theorem takeGroup_append {ts inner rest : List Token} (h : takeGroup ts = .ok (inner, rest))
    (us : List Token) : takeGroup (ts ++ us) = .ok (inner, rest ++ us) := by
  unfold takeGroup at h
  split at h
  · cases h
  · rename_i t ts
    split at h
    · rename_i ho
      split at h
      · rename_i inner' rest' hgroup
        cases h
        rw [List.cons_append, takeGroup, if_pos ho, closeGroup?_append hgroup]
      · cases h
    · cases h

/-! ## References -/

theorem takeOptionalColumns_append {ts us : List Token} {ns : List Text}
    (h : takeOptionalColumns ts = .ok (ns, [])) (hus : startsOpen us = false) :
    takeOptionalColumns (ts ++ us) = .ok (ns, us) := by
  unfold takeOptionalColumns at h
  split at h
  · rename_i ho
    have hopen : startsOpen (ts ++ us) = true := by
      cases ts with
      | nil => cases ho
      | cons t ts => exact ho
    obtain ⟨inner, hgroup, rfl⟩ := Reading.of_mapValue_ok h
    rw [takeOptionalColumns, if_pos hopen, takeColumns, takeGroup_append hgroup]
    rfl
  · cases h
    rw [List.nil_append, takeOptionalColumns, hus]
    rfl

inductive SpelledActions : List (ReferenceEvent × ReferenceAction) → List Token → Prop
  | nil : SpelledActions [] []
  | cons {event : ReferenceEvent} {action : ReferenceAction} {front ts : List Token}
    {actions : List (ReferenceEvent × ReferenceAction)}
    (hfront : Spells ("ON" :: event.word :: action.words) front) (h : SpelledActions actions ts) :
    SpelledActions ((event, action) :: actions) (front ++ ts)

theorem SpelledActions.startsWithPunct {actions : List (ReferenceEvent × ReferenceAction)}
    {ts rest : List Token} (h : SpelledActions actions ts) (hrest : OptionNext rest) (p : Text) :
    TableDialects.startsWithPunct p (ts ++ rest) = false := by
  cases h with
  | nil => exact hrest.startsWithPunct p
  | cons hfront h =>
    obtain ⟨t, more, rfl, ht, -⟩ := hfront.cons
    show t.isPunct p = false
    rw [Token.isPunct, (isWord_iff.1 ht).1]
    rfl

theorem eventAction?_spelled {event : ReferenceEvent} {action : ReferenceAction} {front : List Token}
    (h : Spells ("ON" :: event.word :: action.words) front) (rest : List Token) :
    eventAction? event (front ++ rest) = some ((event, action), rest) := by
  have hother : ∀ a ∈ ReferenceAction.all, ∀ b ∈ ReferenceAction.all, a ≠ b →
      differ ("ON" :: event.word :: a.words) ("ON" :: event.word :: b.words) = true := by
    cases event <;> decide
  have hall : action ∈ ReferenceAction.all := by cases action <;> decide
  obtain ⟨before, behind, hsplit⟩ := List.append_of_mem hall
  have hnodup : (before ++ action :: behind).Nodup := hsplit ▸ by decide
  unfold eventAction?
  rw [List.findSome?_eq_some_iff]
  refine ⟨before, action, behind, hsplit, ?_, ?_⟩
  · rw [afterWords?_spelled h]
  · intro b hb
    have hne : action ≠ b := by
      rintro rfl
      exact (List.nodup_append.1 hnodup).2.2 action hb action List.mem_cons_self rfl
    have hmem : b ∈ ReferenceAction.all := hsplit ▸ List.mem_append_left _ hb
    rw [afterWords?_differ h (hother action hall b hmem hne)]

theorem takeReferencePart_spelled {event : ReferenceEvent} {action : ReferenceAction} {front : List Token}
    (h : Spells ("ON" :: event.word :: action.words) front) (rest : List Token) :
    takeReferencePart (front ++ rest) = .ok (some (.action event action), rest) := by
  have hevent : (afterWords? ["ON", event.word] (front ++ rest)).isSome = true := by
    obtain ⟨on, more, rfl, hon, hmore⟩ := h.cons
    obtain ⟨word, more, rfl, hword, -⟩ := hmore.cons
    have hlead : Spells ["ON", event.word] [on, word] := ⟨hon, hword, trivial⟩
    rw [show on :: word :: more ++ rest = [on, word] ++ (more ++ rest) from rfl, afterWords?_spelled hlead]
    rfl
  unfold takeReferencePart
  cases event with
  | delete =>
    rw [ReferenceEvent.word] at hevent
    rw [if_pos hevent, eventAction?_spelled h]
  | update =>
    rw [ReferenceEvent.word] at hevent
    rw [afterWords?_differ h rfl, if_neg (by decide), if_pos hevent, eventAction?_spelled h]

theorem SpelledActions.takeActions {actions : List (ReferenceEvent × ReferenceAction)} {ts rest : List Token}
    (h : SpelledActions actions ts) (hrest : takeReferencePart rest = .ok (none, rest)) :
    TableDialects.takeActions (ts ++ rest) = .ok (actions, rest) := by
  induction h with
  | nil => rw [List.nil_append, takeActions_eq, hrest]
  | cons hfront h ih =>
    rw [List.append_assoc, takeActions_eq, takeReferencePart_spelled hfront]
    dsimp only
    rw [ih]

/-- A reference is read with its actions, if no further one comes next. -/
theorem takeReference_spelled {name group ts rest : List Token} {first : Text} {more columns : List Text}
    {actions : List (ReferenceEvent × ReferenceAction)} (hname : Dotted (first :: more) name)
    (hgroup : takeOptionalColumns group = .ok (columns, [])) (hactions : SpelledActions actions ts)
    (hrest : OptionNext rest) (hnone : takeReferencePart rest = .ok (none, rest)) :
    takeReference (name ++ (group ++ (ts ++ rest))) =
      .ok (⟨.ofParts first more, columns, actions⟩, rest) := by
  have hopen : startsOpen (ts ++ rest) = false := hactions.startsWithPunct hrest ['(']
  have hdot : startsWithPunct ['.'] (group ++ (ts ++ rest)) = false := by
    cases group with
    | nil => exact hactions.startsWithPunct hrest ['.']
    | cons u group =>
      have hu : u.isOpen = true := by
        unfold takeOptionalColumns at hgroup
        split at hgroup
        · assumption
        · cases hgroup
      exact isPunct_unique hu (by decide)
  -- Neither a dot goes on with the name nor a parenthesis with the columns.
  obtain ⟨n, ns, hnames, hqualified⟩ := hname.takeQualified "referenced table" hdot
  cases hnames
  rw [takeReference, hqualified]
  dsimp only
  rw [takeOptionalColumns_append hgroup hopen]
  dsimp only
  rw [hactions.takeActions hnone]

/-! ## Options -/

namespace ColumnOption

inductive Spelled : ColumnOption → List Token → Prop
  | notNull {front : List Token} (h : Spells ["NOT", "NULL"] front) : Spelled .notNull front
  | null {front : List Token} (h : Spells ["NULL"] front) : Spelled .null front
  | default {front e : List Token} (h : Spells ["DEFAULT"] front) (he : IsExpression e) :
    Spelled (.default e) (front ++ e)
  | counting {w : String} {front : List Token} (hw : w ∈ ["AUTO_INCREMENT", "AUTOINCREMENT", "IDENTITY"])
    (h : Spells [w] front) : Spelled .autoIncrement front
  | identity {front inner group : List Token} (h : Spells ["IDENTITY"] front) (hgroup : IsGroup inner group) :
    Spelled .autoIncrement (front ++ group)
  | primaryKey {front : List Token} (h : Spells ["PRIMARY", "KEY"] front) : Spelled .primaryKey front
  | unique {front : List Token} (h : Spells ["UNIQUE"] front) : Spelled .unique front
  | check {front inner group : List Token} (h : Spells ["CHECK"] front) (hgroup : IsGroup inner group) :
    Spelled (.check inner) (front ++ group)
  | references {front name group ts : List Token} {first : Text} {more columns : List Text}
    {actions : List (ReferenceEvent × ReferenceAction)} (h : Spells ["REFERENCES"] front)
    (hname : Dotted (first :: more) name) (hgroup : takeOptionalColumns group = .ok (columns, []))
    (hactions : SpelledActions actions ts) :
    Spelled (.references ⟨.ofParts first more, columns, actions⟩) (front ++ (name ++ (group ++ ts)))
  | onUpdate {front e : List Token} (h : Spells ["ON", "UPDATE"] front) (he : IsExpression e)
    (hno : ∀ action : ReferenceAction, startsWithWords (action.words.map String.toList) e = false) :
    Spelled (.onUpdate e) (front ++ e)
  | comment {front : List Token} {t : Token} (h : Spells ["COMMENT"] front) (ht : t.kind = .string) :
    Spelled (.comment (stringValue t.value)) (front ++ [t])
  | collate {front : List Token} (t : Token) (h : Spells ["COLLATE"] front) :
    Spelled (.collate t.value) (front ++ [t])

/-- An option starts with its keywords; ON UPDATE starts only one of them. -/
theorem Spelled.lead {o : ColumnOption} {ts : List Token} (h : Spelled o ts) :
    (∃ words ∈ optionLeads, words ≠ ["ON", "UPDATE"] ∧
        ∃ front more, Spells words front ∧ ts = front ++ more) ∨
      ∃ front e, o = .onUpdate e ∧ Spells ["ON", "UPDATE"] front ∧ ts = front ++ e ∧ IsExpression e ∧
        ∀ action : ReferenceAction, startsWithWords (action.words.map String.toList) e = false := by
  have halone := (List.append_nil ts).symm
  cases h with
  | notNull h => exact .inl ⟨_, by decide, by decide, ts, [], h, halone⟩
  | null h => exact .inl ⟨_, by decide, by decide, ts, [], h, halone⟩
  | default h => exact .inl ⟨_, by decide, by decide, _, _, h, rfl⟩
  | counting hw h =>
    have hleads : ∀ w ∈ ["AUTO_INCREMENT", "AUTOINCREMENT", "IDENTITY"],
        [w] ∈ optionLeads ∧ [w] ≠ ["ON", "UPDATE"] := by decide
    exact .inl ⟨_, (hleads _ hw).1, (hleads _ hw).2, ts, [], h, halone⟩
  | identity h => exact .inl ⟨_, by decide, by decide, _, _, h, rfl⟩
  | primaryKey h => exact .inl ⟨_, by decide, by decide, ts, [], h, halone⟩
  | unique h => exact .inl ⟨_, by decide, by decide, ts, [], h, halone⟩
  | check h => exact .inl ⟨_, by decide, by decide, _, _, h, rfl⟩
  | references h => exact .inl ⟨_, by decide, by decide, _, _, h, rfl⟩
  | onUpdate h he hno => exact .inr ⟨_, _, rfl, h, rfl, he, hno⟩
  | comment h => exact .inl ⟨_, by decide, by decide, _, _, h, rfl⟩
  | collate t h => exact .inl ⟨_, by decide, by decide, _, _, h, rfl⟩

theorem Spelled.next {o : ColumnOption} {ts : List Token} (h : Spelled o ts) (rest : List Token) :
    OptionNext (ts ++ rest) := by
  rcases h.lead with ⟨words, hwords, -, front, more, hspells, rfl⟩ | ⟨front, e, -, hspells, rfl, -⟩
  · rw [List.append_assoc]
    exact hspells.optionNext hwords _
  · rw [List.append_assoc]
    exact hspells.optionNext (by decide) _

/-! ## Reading options -/

theorem byKeyword?_spelled {table : List (List String × (List Token → Reading ColumnOption))}
    {words : List String} {reader : List Token → Reading ColumnOption} {front : List Token}
    (hdiffer : (table.map Prod.fst).Pairwise fun a b => differ b a = true)
    (hmem : (words, reader) ∈ table) (h : Spells words front) (rest : List Token) :
    byKeyword? table (front ++ rest) = some (reader rest) := by
  induction table with
  | nil => cases hmem
  | cons entry table ih =>
    obtain ⟨hfirst, hmore⟩ := List.pairwise_cons.1 hdiffer
    rw [byKeyword?]
    rcases List.mem_cons.1 hmem with rfl | hmem
    · rw [afterWords?_spelled h]
    · rw [afterWords?_differ h (hfirst words (List.mem_map.2 ⟨_, hmem, rfl⟩))]
      exact ih hmore hmem

theorem read_keyword {words : List String} {reader : List Token → Reading ColumnOption} {front : List Token}
    (hmem : (words, reader) ∈ table) (h : Spells words front) (rest : List Token) :
    ∃ t more, front = t :: more ∧ read t (more ++ rest) = reader rest := by
  have hkeywords : ∀ ws ∈ table.map Prod.fst, ws ≠ [] ∧ ws.head? ≠ some "GENERATED" ∧
      differ ws ["CHECK"] = true := by decide
  obtain ⟨hne, hgenerated, hcheck⟩ := hkeywords words (List.mem_map.2 ⟨_, hmem, rfl⟩)
  have hfound := byKeyword?_spelled (by decide) hmem h rest
  have hnone := afterWords?_differ h hcheck rest
  cases words with
  | nil => exact absurd rfl hne
  | cons w words =>
    obtain ⟨t, more, rfl, ht, -⟩ := h.cons
    refine ⟨t, more, rfl, ?_⟩
    rw [List.cons_append] at hfound hnone
    have hword : t.isWord "GENERATED" = false :=
      isWord_unique ht fun heq => hgenerated (congrArg some (String.toList_inj.1 heq))
    rw [read, hword, if_neg Bool.false_ne_true, afterCheck?, hnone, hfound]
    rfl

theorem afterInlineKey_next {rest : List Token} (h : OptionNext rest) : afterInlineKey rest = rest := by
  have horder := h.startsWithWordOf ["ASC", "DESC"] (by decide)
  have hindex := h.startsWithWordOf indexOptions (by decide)
  rw [afterInlineKey, horder, if_neg Bool.false_ne_true]
  cases rest with
  | nil => rfl
  | cons t rest => exact List.dropWhile_cons_of_neg (Bool.eq_false_iff.1 hindex)

/-- An option is read as itself in front of further ones. A reference looks for
actions there. -/
theorem Spelled.read {o : ColumnOption} {ts rest : List Token} (h : Spelled o ts) (hrest : OptionNext rest)
    (hnone : ∀ r, o = .references r → takeReferencePart rest = .ok (none, rest)) :
    ∃ t more, ts = t :: more ∧ ColumnOption.read t (more ++ rest) = .ok (o, rest) := by
  -- What is read behind the keywords of an option.
  have hkeyword : ∀ (words : List String) (reader : List Token → Reading ColumnOption)
      (front behind : List Token), (words, reader) ∈ table → Spells words front →
      ts = front ++ behind → reader (behind ++ rest) = .ok (o, rest) →
      ∃ t more, ts = t :: more ∧ ColumnOption.read t (more ++ rest) = .ok (o, rest) := by
    rintro words reader front behind hmem hspells rfl hreader
    obtain ⟨t, more, rfl, hread⟩ := read_keyword hmem hspells (behind ++ rest)
    exact ⟨t, more ++ behind, rfl, by rw [List.append_assoc, hread, hreader]⟩
  have hclosed : startsOpen rest = false := hrest.startsWithPunct ['(']
  have halone := (List.append_nil ts).symm
  cases h with
  | notNull h => exact hkeyword _ _ ts [] (.head _) h halone rfl
  | null h => exact hkeyword _ _ ts [] (.tail _ (.head _)) h halone rfl
  | @default front e h he =>
    refine hkeyword _ (expression .default) front e (by simp [table]) h rfl ?_
    rw [expression, he.takeExpression hrest, Reading.mapValue_ok]
  | counting hw h =>
    rw [List.mem_cons, List.mem_cons, List.mem_singleton] at hw
    rcases hw with rfl | rfl | rfl
    · exact hkeyword _ (fun rest => .ok (.autoIncrement, rest)) ts [] (by simp [table]) h halone rfl
    · exact hkeyword _ (fun rest => .ok (.autoIncrement, rest)) ts [] (by simp [table]) h halone rfl
    · refine hkeyword _ (skipGroup .autoIncrement) ts [] (by simp [table]) h halone ?_
      rw [List.nil_append, skipGroup, hclosed]
      rfl
  | @identity front inner group h hgroup =>
    refine hkeyword _ (skipGroup .autoIncrement) front group (by simp [table]) h rfl ?_
    rw [skipGroup, if_pos (hgroup.startsOpen rest), hgroup.takeGroup, Reading.mapValue_ok]
  | primaryKey h =>
    refine hkeyword _ (fun rest => .ok (.primaryKey, afterInlineKey rest)) ts [] (by simp [table]) h halone ?_
    rw [List.nil_append, afterInlineKey_next hrest]
  | unique h =>
    refine hkeyword _ (fun rest => .ok (.unique, (afterWords? ["KEY"] rest).getD rest)) ts []
      (by simp [table]) h halone ?_
    rw [List.nil_append, hrest.afterWords? [] (by decide)]
    rfl
  | @check front inner group h hgroup =>
    -- CHECK is not in the table of keywords: it is an option only before a group.
    obtain ⟨t, _, rfl, ht, hnil⟩ := h.cons
    obtain rfl := hnil.nil
    refine ⟨t, group, rfl, ?_⟩
    have hafter : afterCheck? (t :: (group ++ rest)) = some (group ++ rest) := by
      rw [afterCheck?, show t :: (group ++ rest) = [t] ++ (group ++ rest) from rfl, afterWords?_spelled h]
      dsimp only
      rw [if_pos (hgroup.startsOpen rest)]
    rw [ColumnOption.read, isWord_unique ht (by decide), if_neg Bool.false_ne_true, hafter]
    dsimp only
    rw [checkCondition, hgroup.takeGroup, Reading.mapValue_ok]
  | @references front name group acts first more columns actions h hname hgroup hactions =>
    refine hkeyword _ referenceTarget front _ (by simp [table]) h rfl ?_
    rw [List.append_assoc, List.append_assoc, referenceTarget,
      takeReference_spelled hname hgroup hactions hrest (hnone _ rfl), Reading.mapValue_ok]
  | @onUpdate front e h he =>
    refine hkeyword _ (expression .onUpdate) front e (by simp [table]) h rfl ?_
    rw [expression, he.takeExpression hrest, Reading.mapValue_ok]
  | @comment front t h ht =>
    refine hkeyword _ commentText front [t] (by simp [table]) h rfl ?_
    rw [List.singleton_append, commentText, takeToken, Reading.mapValue_ok, ofComment, ht]
    rfl
  | @collate front t h => exact hkeyword _ collation front [t] (by simp [table]) h rfl rfl

end ColumnOption

end TableDialects
