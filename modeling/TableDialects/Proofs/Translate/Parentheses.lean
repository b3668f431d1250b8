import TableDialects.Proofs.Reading.Groups
import TableDialects.Proofs.Translate.Places

/- Redundant parentheses around a default. Unwrapping takes off whole layers of
   parentheses and nothing else (`Layers`). They are meant to stand around an
   operand: a literal, a signed one or a single call (`IsOperand`), and an operand in
   any number of layers is found. But a layer is also taken off whatever starts with
   a parenthesis, and whatever starts and ends like a call, so that `(f(1) + g(2))`
   loses its parentheses; the theorem says for which defaults what is left is an
   operand (`unwrap_operand_iff`). -/
namespace TableDialects.Expression

/-- What redundant parentheses stand around: one token, a sign and one token, or one
call, which ends with the parenthesis that closes its arguments. -/
inductive IsOperand : List Token → Prop
  | single (t : Token) : IsOperand [t]
  | signed {sign : Token} (h : sign.value = ['-'] ∨ sign.value = ['+']) (t : Token) : IsOperand [sign, t]
  | call {f : Token} {inner group : List Token} (hf : f.isIdentifier = true) (hgroup : IsGroup inner group) :
    IsOperand (f :: group)

/-- The tokens are `core` in any number of layers of matching parentheses. -/
inductive Layers (core : List Token) : List Token → Prop
  | none : Layers core core
  | layer {ts group : List Token} (h : Layers core ts) (hgroup : IsGroup ts group) : Layers core group

/-- The tokens start with a name and a parenthesis and end with a parenthesis, which
need not be the one that closes the first. -/
def ResemblesCall (ts : List Token) : Prop :=
  ∃ f o middle c, ts = f :: o :: (middle ++ [c]) ∧ f.isIdentifier = true ∧ o.isOpen = true ∧ c.isClose = true

variable {ts inner core : List Token}

/-! ## One layer -/

theorem turn_eq_of_depth (depth : Nat) (t : Token) (h : 0 ≤ (depth : Int) + t.turn) :
    ((if t.isOpen then depth + 1 else if t.isClose then depth - 1 else depth : Nat) : Int) = depth + t.turn := by
  by_cases ho : t.isOpen = true
  · rw [if_pos ho, turn_of_isOpen ho]
    rfl
  · rw [if_neg ho]
    by_cases hc : t.isClose = true
    · rw [turn_of_isClose hc] at h ⊢
      rw [if_pos hc]
      omega
    · rw [if_neg hc, turn_of_neither ho hc, Int.add_zero]

/-- All parentheses are closed early if some front part of the tokens, though not all
of them, closes what is open. -/
theorem closesEarly_iff {depth : Nat} (h : staysOpen depth ts = true) :
    closesEarly depth ts = true ↔
      ∃ front back, ts = front ++ back ∧ front ≠ [] ∧ back ≠ [] ∧ depthAfter depth front = 0 := by
  fun_induction closesEarly depth ts with
  | case1 depth => simp
  | case2 depth t =>
    refine ⟨fun h => (by cases h), ?_⟩
    rintro ⟨front, back, hts, hfront, hback, -⟩
    have hlength := congrArg List.length hts
    rw [List.length_append, List.length_singleton] at hlength
    have := List.length_pos_iff.2 hfront
    have := List.length_pos_iff.2 hback
    omega
  | case3 depth t u ts next ih =>
    rw [staysOpen, Bool.and_eq_true, decide_eq_true_eq] at h
    have hnext : (next : Int) = depth + t.turn := turn_eq_of_depth depth t h.1
    rw [hnext] at ih
    rw [Bool.or_eq_true, beq_iff_eq, ih h.2]
    constructor
    · rintro (hzero | ⟨front, back, hts, -, hback, hdepth⟩)
      · refine ⟨[t], u :: ts, rfl, List.cons_ne_nil t [], List.cons_ne_nil u ts, ?_⟩
        rw [depthAfter_cons, ← hnext, hzero]
        rfl
      · exact ⟨t :: front, back, by rw [hts]; rfl, List.cons_ne_nil t front, hback, hdepth⟩
    · rintro ⟨front, back, hts, hfront, hback, hdepth⟩
      obtain ⟨t', front, rfl⟩ := List.exists_cons_of_ne_nil hfront
      obtain ⟨rfl, hmore⟩ := List.cons.inj hts
      rw [depthAfter_cons] at hdepth
      cases front with
      | nil => exact .inl (by rw [← hnext] at hdepth; exact Int.ofNat.inj hdepth)
      | cons v front => exact .inr ⟨v :: front, back, hmore, List.cons_ne_nil v front, hback, hdepth⟩

/-- Balanced tokens that start with a parenthesis close it early unless they are one
group. -/
theorem closesEarly_eq_false_iff {o : Token} (h : Balanced (o :: ts)) (ho : o.isOpen = true) :
    closesEarly 0 (o :: ts) = false ↔ ∃ inner, IsGroup inner (o :: ts) := by
  rw [← Bool.not_eq_true, closesEarly_iff h.1]
  constructor
  · intro hlate
    obtain ⟨inner, group, rest, hgroup, hts, -⟩ := h.exists_group ho
    cases rest with
    | nil =>
      rw [List.append_nil] at hts
      exact ⟨inner, hts ▸ hgroup⟩
    | cons t rest =>
      have hfront : group ≠ [] := by
        obtain ⟨o', c, rfl, -⟩ := hgroup
        exact List.cons_ne_nil _ _
      exact absurd ⟨group, t :: rest, hts, hfront, List.cons_ne_nil t rest, hgroup.balanced.2⟩ hlate
  · rintro ⟨inner, o', c, hts, -, -, hinner⟩ ⟨front, back, hsplit, hfront, hback, hdepth⟩
    obtain ⟨rfl, rfl⟩ := List.cons.inj hts
    obtain ⟨t, front, rfl⟩ := List.exists_cons_of_ne_nil hfront
    rw [List.cons_append, List.cons.injEq] at hsplit
    obtain ⟨rfl, hmore⟩ := hsplit
    -- The front part ends inside of the group, where its parenthesis is open.
    obtain ⟨back, last, rfl⟩ : ∃ more last, back = more ++ [last] :=
      ⟨_, _, (List.dropLast_concat_getLast hback).symm⟩
    rw [← List.append_assoc] at hmore
    have hwithin := (List.append_inj' hmore rfl).1
    have hnonneg : 0 ≤ depthAfter 0 front :=
      depthAfter_nonneg (Int.le_refl 0) (hwithin ▸ hinner.1)
    rw [depthAfter_cons, turn_of_isOpen ho, depthAfter_add] at hdepth
    omega

/-- A layer is taken off balanced tokens if they are one group, and what it holds is
simple or starts with a parenthesis. -/
theorem peel?_eq_some_iff (h : Balanced ts) :
    peel? ts = some inner ↔
      IsGroup inner ts ∧ inner ≠ [] ∧ (isSimple inner = true ∨ startsOpen inner = true) := by
  -- Fewer than three tokens hold nothing between two parentheses.
  rcases ts with _ | ⟨first, _ | ⟨second, _ | ⟨third, rest⟩⟩⟩
  · simp [peel?, IsGroup]
  · simp [peel?, IsGroup]
  · refine ⟨fun h => (by cases h), ?_⟩
    rintro ⟨⟨o, c, hts, -⟩, hne, -⟩
    cases inner with
    | nil => exact absurd rfl hne
    | cons t inner => simp at hts
  · have hfront : ∀ group, IsGroup group (first :: second :: third :: rest) →
        group = (second :: third :: rest).dropLast := by
      rintro group ⟨o, c, hts, -⟩
      rw [(List.cons.inj hts).2, List.dropLast_concat]
    have hsecond : startsOpen (second :: third :: rest).dropLast = second.isOpen := rfl
    unfold peel?
    dsimp only
    rw [Option.ite_none_right_eq_some, Bool.and_eq_true, Bool.and_eq_true, Bool.and_eq_true, Bool.or_eq_true,
      Bool.not_eq_true', Option.some.injEq, ← hsecond]
    constructor
    · rintro ⟨⟨⟨⟨ho, -⟩, hlate⟩, hkind⟩, rfl⟩
      obtain ⟨group, hgroup⟩ := (closesEarly_eq_false_iff h ho).1 hlate
      refine ⟨hfront group hgroup ▸ hgroup, ?_, hkind⟩
      rw [List.dropLast_cons_cons]
      exact List.cons_ne_nil _ _
    · rintro ⟨hgroup, -, hkind⟩
      have hinner := hfront inner hgroup
      have hlast : (first :: second :: third :: rest).getLast?.any Token.isClose = true := by
        obtain ⟨o, c, hts, -, hc, -⟩ := hgroup
        rw [hts, ← List.cons_append, List.getLast?_concat]
        exact hc
      have ho : first.isOpen = true := by
        obtain ⟨o, c, hts, ho, -⟩ := hgroup
        rw [(List.cons.inj hts).1]
        exact ho
      have hlate := (closesEarly_eq_false_iff h ho).2 ⟨inner, hgroup⟩
      exact ⟨⟨⟨⟨ho, hlast⟩, hlate⟩, hinner ▸ hkind⟩, hinner.symm⟩

/-- A layer comes off an operand, off what resembles a call and off what starts with
a parenthesis. -/
theorem isSimple_iff : isSimple inner = true ↔
    (∃ t, inner = [t]) ∨ (∃ sign t, inner = [sign, t] ∧ (sign.value = ['-'] ∨ sign.value = ['+'])) ∨
      ResemblesCall inner := by
  rcases inner with _ | ⟨f, _ | ⟨o, _ | ⟨t, rest⟩⟩⟩
  · simp [isSimple, ResemblesCall]
  · simp [isSimple]
  · simp [isSimple, ResemblesCall]
  · have hlast : (f :: o :: t :: rest).getLast? = (t :: rest).getLast? := by
      rw [List.getLast?_cons_cons, List.getLast?_cons_cons]
    obtain ⟨middle, c, hrest⟩ : ∃ middle c, t :: rest = middle ++ [c] :=
      ⟨_, _, (List.dropLast_concat_getLast (List.cons_ne_nil t rest)).symm⟩
    unfold isSimple
    dsimp only
    rw [hlast, hrest, List.getLast?_concat, Option.any_some, Bool.and_eq_true, Bool.and_eq_true]
    constructor
    · rintro ⟨⟨hf, ho⟩, hc⟩
      exact .inr (.inr ⟨f, o, middle, c, rfl, hf, ho, hc⟩)
    · rintro (⟨u, hu⟩ | ⟨sign, u, hu, -⟩ | ⟨f', o', middle', c', hts, hf, ho, hc⟩)
      · cases hu
      · have hlength := congrArg List.length hu
        simp at hlength
      · rw [List.cons.injEq, List.cons.injEq] at hts
        obtain ⟨rfl, rfl, hts⟩ := hts
        cases (List.append_inj' hts rfl).2
        exact ⟨⟨hf, ho⟩, hc⟩

/-! ## All layers -/

theorem isOpen_of_isIdentifier {t : Token} (h : t.isIdentifier = true) : t.isOpen = false := by
  unfold Token.isIdentifier at h
  rw [Bool.and_eq_true, Bool.or_eq_true, beq_iff_eq, beq_iff_eq] at h
  unfold Token.isOpen Token.isPunct
  rcases h.1 with hk | hk <;> rw [hk] <;> rfl

theorem IsOperand.isSimple (h : IsOperand core) : Expression.isSimple core = true := by
  rw [isSimple_iff]
  cases h with
  | single t => exact .inl ⟨t, rfl⟩
  | signed hsign t => exact .inr (.inl ⟨_, t, rfl, hsign⟩)
  | @call f inner group hf hgroup =>
    obtain ⟨o, c, rfl, ho, hc, -⟩ := hgroup
    exact .inr (.inr ⟨f, o, inner, c, rfl, hf, ho, hc⟩)

theorem IsOperand.ne_nil (h : IsOperand core) : core ≠ [] := by
  cases h <;> exact List.cons_ne_nil _ _

theorem IsOperand.unwrap_eq (h : IsOperand core) : unwrap core = core := by
  have hpeel : peel? core = none := by
    cases h with
    | single t => rfl
    | signed hsign t => rfl
    | @call f inner group hf hgroup =>
      obtain ⟨o, c, rfl, -⟩ := hgroup
      have hopen := isOpen_of_isIdentifier hf
      cases inner <;> simp [peel?, hopen]
  rw [Expression.unwrap_eq, hpeel]

theorem unwrap_of_peel? (h : peel? ts = some inner) : unwrap ts = unwrap inner := by
  rw [unwrap_eq, h]

theorem unwrap_length (ts : List Token) : (unwrap ts).length ≤ ts.length := by
  fun_induction unwrap ts with
  | case1 ts inner hpeel ih => exact Nat.le_trans ih (Nat.le_of_lt (peel?_length hpeel))
  | case2 ts hpeel => exact Nat.le_refl _

theorem unwrap_layers (h : Balanced ts) : Layers (unwrap ts) ts := by
  fun_induction unwrap ts with
  | case1 ts inner hpeel ih =>
    obtain ⟨hgroup, -⟩ := (peel?_eq_some_iff h).1 hpeel
    obtain ⟨o, c, -, -, -, hinner⟩ := id hgroup
    exact .layer (ih hinner) hgroup
  | case2 ts hpeel => exact .none

theorem Layers.unwrap_eq (h : Layers core ts) (hcore : IsOperand core) : unwrap ts = core := by
  induction h with
  | none => exact hcore.unwrap_eq
  | @layer ts group h hgroup ih =>
    have hkind : ts ≠ [] ∧ (isSimple ts = true ∨ startsOpen ts = true) := by
      cases h with
      | none => exact ⟨hcore.ne_nil, .inl hcore.isSimple⟩
      | layer h hts =>
        obtain ⟨o, c, rfl, ho, -⟩ := hts
        exact ⟨List.cons_ne_nil _ _, .inr ho⟩
    rw [unwrap_of_peel? ((peel?_eq_some_iff hgroup.balanced).2 ⟨hgroup, hkind⟩), ih]

/-- Unwrapping balanced tokens takes off layers of parentheses. If it takes off any,
what is left is an operand exactly if this holds: when the outermost parentheses hold
tokens that start with a parenthesis, or that start and end like a call, then these
tokens are an operand in layers. -/
theorem unwrap_operand_iff (ts : List Token) (h : Balanced ts) :
    Layers (unwrap ts) ts ∧
      ((unwrap ts ≠ ts → IsOperand (unwrap ts)) ↔
        ∀ inner, IsGroup inner ts → startsOpen inner = true ∨ ResemblesCall inner →
          ∃ core, IsOperand core ∧ Layers core inner) := by
  refine ⟨unwrap_layers h, ?_, ?_⟩
  · intro hoperand inner hgroup hkind
    have hpeel : peel? ts = some inner := by
      rw [peel?_eq_some_iff h]
      rcases hkind with hopen | hcall
      · refine ⟨hgroup, ?_, .inr hopen⟩
        rintro rfl
        cases hopen
      · refine ⟨hgroup, ?_, .inl (isSimple_iff.2 (.inr (.inr hcall)))⟩
        obtain ⟨f, o, middle, c, rfl, -⟩ := hcall
        exact List.cons_ne_nil _ _
    obtain ⟨o, c, -, -, -, hinner⟩ := hgroup
    have hshorter : (unwrap inner).length < ts.length :=
      Nat.lt_of_le_of_lt (unwrap_length inner) (peel?_length hpeel)
    rw [unwrap_of_peel? hpeel] at hoperand
    refine ⟨unwrap inner, hoperand ?_, unwrap_layers hinner⟩
    rintro heq
    exact absurd (congrArg List.length heq) (Nat.ne_of_lt hshorter)
  · intro hinner hne
    cases hpeel : peel? ts with
    | none =>
      rw [unwrap_eq, hpeel] at hne
      exact absurd rfl hne
    | some inner =>
      obtain ⟨hgroup, -, hkind⟩ := (peel?_eq_some_iff h).1 hpeel
      have hcore : ∃ core, IsOperand core ∧ Layers core inner := by
        rcases hkind with hsimple | hopen
        · rcases isSimple_iff.1 hsimple with ⟨t, rfl⟩ | ⟨sign, t, rfl, hsign⟩ | hcall
          · exact ⟨[t], .single t, .none⟩
          · exact ⟨[sign, t], .signed hsign t, .none⟩
          · exact hinner inner hgroup (.inr hcall)
        · exact hinner inner hgroup (.inl hopen)
      obtain ⟨core, hoperand, hlayers⟩ := hcore
      rw [unwrap_of_peel? hpeel, hlayers.unwrap_eq hoperand]
      exact hoperand

/-- A sum of calls, which starts and ends like one. -/
theorem unwrap_operand_iff_sum :
    let ts : List Token := [⟨.punct, ['('], 0, true⟩, ⟨.word, ['f'], 1, false⟩, ⟨.punct, ['('], 2, false⟩,
      ⟨.number, ['1'], 3, false⟩, ⟨.punct, [')'], 4, false⟩, ⟨.op, ['+'], 6, true⟩, ⟨.word, ['g'], 8, true⟩,
      ⟨.punct, ['('], 9, false⟩, ⟨.number, ['2'], 10, false⟩, ⟨.punct, [')'], 11, false⟩,
      ⟨.punct, [')'], 12, false⟩]
    Balanced ts ∧ Layers (unwrap ts) ts ∧
      ((unwrap ts ≠ ts → IsOperand (unwrap ts)) ↔
        ∀ inner, IsGroup inner ts → startsOpen inner = true ∨ ResemblesCall inner →
          ∃ core, IsOperand core ∧ Layers core inner) := by
  intro ts
  have hbalanced : Balanced ts := by decide
  exact ⟨hbalanced, unwrap_operand_iff ts hbalanced⟩

end TableDialects.Expression
