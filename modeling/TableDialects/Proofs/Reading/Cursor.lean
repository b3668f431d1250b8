import TableDialects.Token.Cursor
import TableDialects.Proofs.Reading.Kept

/- The cursor over tokens. A reader, also one that fails, leaves the end of the tokens
   that it was given, so each request moves the cursor to such an end (`ask_leaves`).
   What a request may do to the cursor is said once (`Moves`) and holds of all requests,
   in any order (`askAll_moves`): the cursor stays among the tokens and never goes back,
   a group is taken up to its closing parenthesis, and of balanced tokens an expression
   takes a balanced part up to the next option. An expression is at least one token:
   where none is left, the request fails (`expression_at_end`). -/
namespace TableDialects

/-! ## What readers leave -/

/-- The tokens that a reader left, whether it failed or not. -/
def Reading.left {α : Type} : Reading α → List Token
  | .ok (_, rest) => rest
  | .error e => e.rest

theorem left_takeToken (ts : List Token) : (takeToken ts).left <:+ ts := by
  cases ts with
  | nil => exact List.suffix_refl []
  | cons t ts => exact List.suffix_cons t ts

theorem rest_of_takeName_error {what : Text} {ts : List Token} {e : Stop} (h : takeName what ts = .error e) :
    e.rest = ts := by
  cases ts with
  | nil =>
    cases h
    rfl
  | cons t ts =>
    rw [takeName] at h
    split at h
    · cases h
    · cases h
      rfl

theorem left_takeName (what : Text) (ts : List Token) : (takeName what ts).left <:+ ts := by
  cases htake : takeName what ts with
  | ok p => exact takeName_suffix htake
  | error e =>
    obtain rfl := rest_of_takeName_error htake
    exact List.suffix_refl e.rest

/-- Dots and names are taken one by one, up to the place of the failure. -/
theorem left_takeDotted (what : Text) (ts : List Token) : (takeDotted what ts).left <:+ ts := by
  fun_induction takeDotted what ts with
  | case1 => exact List.suffix_refl []
  | case2 dot hdot => exact List.suffix_cons dot []
  | case3 dot hdot t ts ht names rest hmore ih =>
    rw [hmore] at ih
    exact ih.trans ((List.suffix_cons t ts).trans (List.suffix_cons dot (t :: ts)))
  | case4 dot hdot t ts ht e hmore ih =>
    rw [hmore] at ih
    exact ih.trans ((List.suffix_cons t ts).trans (List.suffix_cons dot (t :: ts)))
  | case5 dot hdot t ts ht => exact List.suffix_cons dot (t :: ts)
  | case6 dot ts hdot => exact List.suffix_refl (dot :: ts)

theorem left_takeQualified (what : Text) (ts : List Token) : (takeQualified what ts).left <:+ ts := by
  have hfirst := left_takeName what ts
  unfold takeQualified
  cases hname : takeName what ts with
  | error e =>
    rw [hname] at hfirst
    exact hfirst
  | ok p =>
    obtain ⟨first, rest⟩ := p
    rw [hname] at hfirst
    have hmore := (left_takeDotted what rest).trans hfirst
    dsimp only
    cases hdotted : takeDotted what rest with
    | error e =>
      rw [hdotted] at hmore
      exact hmore
    | ok p =>
      rw [hdotted] at hmore
      exact hmore

theorem left_takeGroup (ts : List Token) : (takeGroup ts).left <:+ ts := by
  cases htake : takeGroup ts with
  | ok p => exact takeGroup_suffix htake
  | error e =>
    -- A group that is never closed is searched to the end.
    unfold takeGroup at htake
    split at htake
    · cases htake
      exact List.suffix_refl []
    · split at htake
      · split at htake
        · cases htake
        · cases htake
          exact List.nil_suffix
      · cases htake
        exact List.suffix_refl _

theorem left_takeExpression (ts : List Token) : (takeExpression ts).left <:+ ts := by
  cases htake : takeExpression ts with
  | ok p => exact ⟨p.1, takeExpression_append htake⟩
  | error e =>
    cases ts with
    | nil =>
      cases htake
      exact List.suffix_refl []
    | cons t ts => cases htake

/-! ## Expressions among balanced tokens -/

/-- The tokens of an expression go on to the end, or to an option outside of
parentheses. -/
theorem expressionRest_stops (depth : Int) (ts : List Token) :
    (expressionRest depth ts).2 = [] ∨
      depthAfter depth (expressionRest depth ts).1 = 0 ∧ startsOption (expressionRest depth ts).2 = true := by
  fun_induction expressionRest depth ts with
  | case1 => exact .inl rfl
  | case2 depth t ts hstart =>
    rw [Bool.and_eq_true, beq_iff_eq] at hstart
    exact .inr hstart
  | case3 depth t ts hstart more left hmore ih =>
    rw [hmore] at ih
    exact ih

theorem expressionRest_passes (depth : Int) (ts : List Token) {front behind : List Token} {t : Token}
    (h : (expressionRest depth ts).1 = front ++ t :: behind) (hdepth : depthAfter depth front = 0) :
    startsOption (t :: (behind ++ (expressionRest depth ts).2)) = false := by
  fun_induction expressionRest depth ts generalizing front with
  | case1 => simp at h
  | case2 => simp at h
  | case3 depth u ts hstart more left hmore ih =>
    rw [hmore] at ih
    cases front with
    | nil =>
      have hts := expressionRest_append (depth + u.turn) ts
      obtain ⟨rfl, rfl⟩ := List.cons.inj h
      rw [hmore] at hts
      rw [show depth = 0 from hdepth, beq_self_eq_true, Bool.true_and, Bool.not_eq_true] at hstart
      exact hts ▸ hstart
    | cons v front =>
      obtain ⟨rfl, hrest⟩ := List.cons.inj h
      exact ih hrest hdepth

/-- A token that starts no option in front of all that follows starts none in front of
a part of it. -/
theorem startsOption_of_append {t : Token} {ts us : List Token} (h : startsOption (t :: (ts ++ us)) = false) :
    startsOption (t :: ts) = false := by
  cases ts with
  | cons u ts => exact h
  | nil =>
    rw [startsOption] at h ⊢
    split at h
    · rw [if_pos ‹_›]
    · rw [if_neg ‹_›]
      split at h
      · rw [if_pos ‹_›]
        rfl
      · rw [if_neg ‹_›]
        split at h
        · rw [if_pos ‹_›]
          rfl
        · rw [if_neg ‹_›]
          exact h

/-- Of balanced tokens an expression is taken, up to the end or to an option. -/
theorem takeExpression_of_balanced {ts : List Token} (h : Balanced ts) (hne : ts ≠ []) :
    ∃ e rest, takeExpression ts = .ok (e, rest) ∧ IsExpression e ∧ ts = e ++ rest ∧
      (rest = [] ∨ startsOption rest = true) := by
  obtain ⟨t, ts, rfl⟩ := List.exists_cons_of_ne_nil hne
  have hsplit := expressionRest_append (0 + t.turn) ts
  have hstops := expressionRest_stops (0 + t.turn) ts
  have hpasses := @expressionRest_passes (0 + t.turn) ts
  rw [takeExpression, turn_of_first h.1]
  generalize expressionRest (0 + t.turn) ts = p at hsplit hstops hpasses ⊢
  obtain ⟨more, rest⟩ := p
  dsimp only at hsplit hstops hpasses ⊢
  subst hsplit
  have hbalanced : Balanced (t :: more) := by
    rcases hstops with rfl | ⟨hdepth, -⟩
    · exact (List.append_nil (t :: more)) ▸ h
    · have hstays := h.1
      rw [← List.cons_append, staysOpen_append, Bool.and_eq_true] at hstays
      exact ⟨hstays.1, hdepth⟩
  refine ⟨t :: more, rest, rfl, ⟨List.cons_ne_nil t more, hbalanced, ?_⟩, rfl, hstops.imp_right And.right⟩
  intro front u behind hfront hnonempty hdepth
  obtain ⟨v, front, rfl⟩ := List.exists_cons_of_ne_nil hnonempty
  obtain ⟨rfl, rfl⟩ := List.cons.inj hfront
  exact startsOption_of_append (hpasses rfl hdepth)

/-! ## One request -/

/-- Whether the request only looks ahead. -/
def Request.isPeek : Request → Bool
  | .peek _ => true
  | .atEnd => true
  | .peekWords _ => true
  | .peekPunct _ => true
  | _ => false

namespace Cursor

structure Moves (c : Cursor) (r : Request) (answer : Answer) (c' : Cursor) : Prop where
  tokens : c'.tokens = c.tokens
  forward : c.pos ≤ c'.pos
  inside : c'.pos ≤ c.tokens.length
  peeked : r.isPeek = true → c' = c
  /-- Keywords that do not come next are left. -/
  unaccepted : ∀ words, r = .acceptWords words → answer = .flag false → c' = c
  /-- What is no name is left. -/
  unnamed : ∀ what cause, r = .name what → answer = .failure cause → c' = c
  /-- A group is taken with its parentheses, and the tokens between these are balanced. -/
  group : ∀ inner, r = .group →
    (answer = .tokens inner ↔ ∃ g, IsGroup inner g ∧ c.rest = g ++ c'.rest)
  /-- Of balanced tokens an expression is taken, balanced in itself, up to the end or to
  an option. -/
  expression : r = .expression → Balanced c.rest → c.rest ≠ [] →
    ∃ e, answer = .tokens e ∧ IsExpression e ∧ c.rest = e ++ c'.rest ∧
      (c'.rest = [] ∨ startsOption c'.rest = true)
  /-- At the end there is no expression. -/
  ended : r = .expression → c.rest = [] → answer = .failure .unexpectedEnd ∧ c' = c

variable {c : Cursor} {left : List Token}

theorem rest_suffix (c : Cursor) : c.rest <:+ c.tokens := List.drop_suffix c.pos c.tokens

theorem rest_leave (h : left <:+ c.rest) : (c.leave left).rest = left :=
  (List.suffix_iff_eq_drop.1 (h.trans c.rest_suffix)).symm

theorem pos_le_leave (hc : c.pos ≤ c.tokens.length) (h : left <:+ c.rest) : c.pos ≤ (c.leave left).pos := by
  have hlength := h.length_le
  rw [rest, List.length_drop] at hlength
  show c.pos ≤ c.tokens.length - left.length
  omega

theorem leave_rest (hc : c.pos ≤ c.tokens.length) : c.leave c.rest = c := by
  obtain ⟨ts, pos⟩ := c
  have hpos : ts.length - (ts.drop pos).length = pos := by
    rw [List.length_drop]
    exact Nat.sub_sub_self hc
  exact congrArg (Cursor.mk ts) hpos

theorem read_snd {α : Type} (c : Cursor) (answer : α → Answer) (x : Reading α) :
    (c.read answer x).2 = c.leave x.left := by
  cases x <;> rfl

/-- Each request leaves the cursor at an end of the tokens that were left. -/
theorem ask_leaves (hc : c.pos ≤ c.tokens.length) (r : Request) :
    ∃ left, left <:+ c.rest ∧ (c.ask r).2 = c.leave left := by
  have hstays : ∃ left, left <:+ c.rest ∧ c = c.leave left :=
    ⟨c.rest, List.suffix_refl c.rest, (leave_rest hc).symm⟩
  cases r with
  | peek offset => exact hstays
  | next => exact ⟨_, left_takeToken c.rest, read_snd c _ _⟩
  | atEnd => exact hstays
  | peekWords words => exact hstays
  | acceptWords words =>
    rw [ask]
    split
    · exact ⟨_, List.drop_suffix words.length c.rest, rfl⟩
    · exact hstays
  | peekPunct mark => exact hstays
  | name what => exact ⟨_, left_takeName what c.rest, read_snd c _ _⟩
  | qualifiedName what => exact ⟨_, left_takeQualified what c.rest, read_snd c _ _⟩
  | group => exact ⟨_, left_takeGroup c.rest, read_snd c _ _⟩
  | expression => exact ⟨_, left_takeExpression c.rest, read_snd c _ _⟩

theorem ask_of_isPeek {r : Request} (h : r.isPeek = true) : (c.ask r).2 = c := by
  unfold Request.isPeek at h
  split at h
  · rfl
  · rfl
  · rfl
  · rfl
  · cases h

theorem ask_acceptWords_false {words : List Text} (h : (c.ask (.acceptWords words)).1 = .flag false) :
    (c.ask (.acceptWords words)).2 = c := by
  rw [ask] at h ⊢
  split at h
  · cases h
  · rw [if_neg ‹_›]

theorem ask_name_failure (hc : c.pos ≤ c.tokens.length) {what : Text} {cause : Malformed}
    (h : (c.ask (.name what)).1 = .failure cause) : (c.ask (.name what)).2 = c := by
  rw [ask] at h ⊢
  cases htake : takeName what c.rest with
  | ok p =>
    rw [htake] at h
    cases h
  | error e =>
    show c.leave e.rest = c
    rw [rest_of_takeName_error htake, leave_rest hc]

theorem ask_group_iff {inner : List Token} :
    (c.ask .group).1 = .tokens inner ↔ ∃ g, IsGroup inner g ∧ c.rest = g ++ (c.ask .group).2.rest := by
  have hrest := rest_leave (left_takeGroup c.rest)
  rw [← read_snd c .tokens] at hrest
  rw [ask]
  constructor
  · intro h
    cases htake : takeGroup c.rest with
    | ok p =>
      rw [htake] at h hrest
      cases h
      obtain ⟨g, hg, hts⟩ := isGroup_of_takeGroup htake
      exact ⟨g, hg, by rw [hrest]; exact hts⟩
    | error e =>
      rw [htake] at h
      cases h
  · rintro ⟨g, hg, hts⟩
    rw [hts, hg.takeGroup]
    rfl

theorem ask_expression_balanced (h : Balanced c.rest) (hne : c.rest ≠ []) :
    ∃ e, (c.ask .expression).1 = .tokens e ∧ IsExpression e ∧ c.rest = e ++ (c.ask .expression).2.rest ∧
      ((c.ask .expression).2.rest = [] ∨ startsOption (c.ask .expression).2.rest = true) := by
  obtain ⟨e, rest, htake, he, hts, hstops⟩ := takeExpression_of_balanced h hne
  have hrest : (c.leave rest).rest = rest := rest_leave ⟨e, hts.symm⟩
  have hask : c.ask .expression = (.tokens e, c.leave rest) := by
    rw [ask, htake]
    rfl
  rw [hask]
  refine ⟨e, rfl, he, ?_, ?_⟩
  · rw [hrest]
    exact hts
  · rw [hrest]
    exact hstops

theorem ask_expression_nil (hc : c.pos ≤ c.tokens.length) (h : c.rest = []) :
    c.ask .expression = (.failure .unexpectedEnd, c) := by
  have hstays := leave_rest hc
  rw [h] at hstays
  rw [ask, h]
  show (Answer.failure .unexpectedEnd, c.leave []) = _
  rw [hstays]

theorem ask_moves (hc : c.pos ≤ c.tokens.length) (r : Request) : Moves c r (c.ask r).1 (c.ask r).2 := by
  obtain ⟨left, hsuffix, hleave⟩ := ask_leaves hc r
  exact {
    tokens := by rw [hleave]; rfl
    forward := by rw [hleave]; exact pos_le_leave hc hsuffix
    inside := by rw [hleave]; exact Nat.sub_le _ _
    peeked := ask_of_isPeek
    unaccepted := by
      rintro words rfl hflag
      exact ask_acceptWords_false hflag
    unnamed := by
      rintro what cause rfl hfailure
      exact ask_name_failure hc hfailure
    group := by
      rintro inner rfl
      exact ask_group_iff
    expression := by
      rintro rfl hbalanced hne
      exact ask_expression_balanced hbalanced hne
    ended := by
      rintro rfl hnil
      rw [ask_expression_nil hc hnil]
      exact ⟨rfl, rfl⟩ }

/-! ## Requests in turn -/

def after (c : Cursor) (rs : List Request) : Cursor := rs.foldl (fun c r => (c.ask r).2) c

/-- Each request is answered from where those before it left the cursor. -/
theorem getElem?_askAll (c : Cursor) (before : List Request) (r : Request) (behind : List Request) :
    (c.askAll (before ++ r :: behind))[before.length]? =
      some (((c.after before).ask r).1, ((c.after before).ask r).2.pos) := by
  induction before generalizing c with
  | nil => rfl
  | cons first before ih => exact ih (c.ask first).2

theorem Moves.stays {r : Request} {answer : Answer} {c' : Cursor} (h : Moves c r answer c') :
    c'.pos ≤ c'.tokens.length := h.tokens ▸ h.inside

theorem after_inside (hc : c.pos ≤ c.tokens.length) (rs : List Request) :
    (c.after rs).tokens = c.tokens ∧ (c.after rs).pos ≤ c.tokens.length := by
  induction rs generalizing c with
  | nil => exact ⟨rfl, hc⟩
  | cons r rs ih =>
    have hmoves := ask_moves hc r
    rw [← hmoves.tokens]
    exact ih hmoves.stays

/-- The places of a run stand in order, from the first place on, and among the
tokens. -/
theorem askAll_places (hc : c.pos ≤ c.tokens.length) (rs : List Request) :
    (c.pos :: (c.askAll rs).map Prod.snd).Pairwise (· ≤ ·) ∧
      ∀ place ∈ (c.askAll rs).map Prod.snd, place ≤ c.tokens.length := by
  induction rs generalizing c with
  | nil => exact ⟨List.pairwise_singleton _ _, List.forall_mem_nil _⟩
  | cons r rs ih =>
    have hmoves := ask_moves hc r
    obtain ⟨hsorted, hbound⟩ := ih hmoves.stays
    rw [hmoves.tokens] at hbound
    have hplaces : (c.askAll (r :: rs)).map Prod.snd =
        (c.ask r).2.pos :: ((c.ask r).2.askAll rs).map Prod.snd := rfl
    rw [hplaces]
    refine ⟨List.pairwise_cons.2 ⟨?_, hsorted⟩, List.forall_mem_cons.2 ⟨hmoves.inside, hbound⟩⟩
    intro place hplace
    rcases List.mem_cons.1 hplace with rfl | hlater
    · exact hmoves.forward
    · exact Nat.le_trans hmoves.forward (List.rel_of_pairwise_cons hsorted hlater)

/-- Requests in turn, also when some fail, move a cursor forward among its tokens; and
wherever earlier requests have left it, each does no more than it may. -/
theorem askAll_moves (ts : List Token) (before : List Request) (r : Request) (behind : List Request) :
    let run := (start ts).askAll (before ++ r :: behind)
    let c := (start ts).after before
    (0 :: run.map Prod.snd).Pairwise (· ≤ ·) ∧ (∀ place ∈ run.map Prod.snd, place ≤ ts.length) ∧
      run[before.length]? = some ((c.ask r).1, (c.ask r).2.pos) ∧ c.tokens = ts ∧
      Moves c r (c.ask r).1 (c.ask r).2 := by
  intro run c
  have hstart : (start ts).pos ≤ (start ts).tokens.length := Nat.zero_le _
  obtain ⟨hsorted, hbound⟩ := askAll_places hstart (before ++ r :: behind)
  obtain ⟨htokens, hinside⟩ := after_inside hstart before
  exact ⟨hsorted, hbound, getElem?_askAll (start ts) before r behind, htokens,
    ask_moves (htokens.symm ▸ hinside) r⟩

/-- Behind a DEFAULT that ends the tokens nothing is left, which is balanced, and no
expression is answered. -/
theorem expression_at_end :
    let c := (start [⟨.word, "DEFAULT", 0, false⟩]).after [.acceptWords ["DEFAULT"]]
    Balanced c.rest ∧ ∀ e, (c.ask .expression).1 ≠ .tokens e := by
  intro c
  have hrest : c.rest = [] := by decide
  have hinside : c.pos ≤ c.tokens.length := by decide
  rw [ask_expression_nil hinside hrest, hrest]
  refine ⟨by decide, ?_⟩
  intro e h
  cases h

end Cursor
end TableDialects
