import TableDialects.Proofs.Translate.Casts
import TableDialects.Proofs.Translate.Parentheses

/- Parentheses through the rewriting of expressions. Casts are cut out piece by piece, each
   a double colon with balanced tokens behind it (`CutOut`), so what stands around them
   keeps its depth. Unwrapping takes off layers of parentheses until none comes off
   (`Layers`). So a balanced expression stays balanced (`rewrites_stay_balanced`), and the
   column section that it is written into does not end inside of it. -/
namespace TableDialects.Expression

/-- Tokens with casts cut out: a double colon goes, and balanced tokens behind it. -/
inductive CutOut : List Token → List Token → Prop
  | nil : CutOut [] []
  | keep {t : Token} {ts us : List Token} (ht : isCast t = false) (h : CutOut ts us) : CutOut (t :: ts) (t :: us)
  | cut {cast : Token} {type ts us : List Token} (hcast : isCast cast = true) (htype : Balanced type)
    (h : CutOut ts us) : CutOut (cast :: (type ++ ts)) us

variable {ts us core : List Token} {t : Token}

/-! ## The type of a cast -/

theorem turn_of_isIdentifier (h : t.isIdentifier = true) : t.turn = 0 := by
  rw [Token.isIdentifier, Bool.and_eq_true, Bool.or_eq_true, beq_iff_eq, beq_iff_eq] at h
  apply turn_of_kind
  rcases h.1 with hk | hk <;> rw [hk] <;> decide

theorem turn_of_isCast (h : isCast t = true) : t.turn = 0 := by
  rw [isCast, Bool.and_eq_true, beq_iff_eq] at h
  exact turn_of_kind (by rw [h.1]; decide)

theorem consumes_castWords (ts : List Token) : Consumes ts (ts.dropWhile fun t => t.isWordOf castWords) := by
  induction ts with
  | nil => exact Consumes.refl []
  | cons t ts ih =>
    rw [List.dropWhile_cons]
    split
    · rename_i hword
      rw [isWordOf_eq_any, List.any_eq_true] at hword
      obtain ⟨w, -, hw⟩ := hword
      exact (consumes_word hw ts).trans ih
    · exact Consumes.refl (t :: ts)

theorem consumes_afterTypeName (ts : List Token) : Consumes ts (afterTypeName ts) := by
  unfold afterTypeName
  split
  · exact Consumes.refl []
  · split
    · exact (consumes_of_turn (turn_of_isIdentifier ‹_›) _).trans (consumes_castWords _)
    · exact Consumes.refl _

theorem consumes_afterParams (h : startsOpen ts = true → ∃ inner left, takeGroup ts = .ok (inner, left)) :
    Consumes ts (afterParams ts) := by
  cases hopen : startsOpen ts with
  | false =>
    rw [afterParams_of_not_open hopen]
    exact Consumes.refl ts
  | true =>
    obtain ⟨inner, left, htake⟩ := h hopen
    obtain ⟨group, hgroup, rfl⟩ := isGroup_of_takeGroup htake
    rw [afterParams_group hgroup]
    exact ⟨group, rfl, hgroup.balanced⟩

theorem consumes_afterArray (ts : List Token) : Consumes ts (afterArray ts) := by
  unfold afterArray
  split
  · exact Consumes.refl []
  · split
    · rename_i harray
      rw [Bool.and_eq_true, beq_iff_eq] at harray
      exact consumes_of_turn (turn_of_kind (by rw [harray.1]; decide)) _
    · exact Consumes.refl _

/-- What is cut out behind a double colon is balanced, if its parameters are closed. -/
theorem consumes_afterCastType
    (h : startsOpen (afterTypeName ts) = true → ∃ inner left, takeGroup (afterTypeName ts) = .ok (inner, left)) :
    Consumes ts (afterCastType ts) :=
  (consumes_afterTypeName ts).trans ((consumes_afterParams h).trans (consumes_afterArray _))

/-! ## Casts -/

theorem cutOut_stripCasts (h : CastsClosed ts) : CutOut ts (stripCasts ts) := by
  fun_induction stripCasts ts with
  | case1 => exact .nil
  | case2 t ts ht ih =>
    obtain ⟨type, hts, htype⟩ := consumes_afterCastType (h t ts (List.suffix_refl _) ht)
    have hrest := ih (h.of_suffix ((afterCastType_suffix ts).trans (List.suffix_cons t ts)))
    generalize afterCastType ts = rest at hts hrest
    rw [hts]
    exact .cut ht htype hrest
  | case3 t ts ht ih =>
    exact .keep (Bool.not_eq_true _ ▸ ht) (ih (h.of_suffix (List.suffix_cons t ts)))

namespace CutOut

theorem sublist (h : CutOut ts us) : us.Sublist ts := by
  induction h with
  | nil => exact List.Sublist.slnil
  | keep ht h ih => exact ih.cons_cons _
  | cut hcast htype h ih => exact (ih.trans (List.sublist_append_right _ _)).cons _

theorem isCast_eq_false (h : CutOut ts us) : ∀ t ∈ us, isCast t = false := by
  induction h with
  | nil => exact List.forall_mem_nil _
  | keep ht h ih => exact List.forall_mem_cons.2 ⟨ht, ih⟩
  | cut hcast htype h ih => exact ih

theorem eq_self (h : CutOut ts us) (hts : ∀ t ∈ ts, isCast t = false) : us = ts := by
  induction h with
  | nil => rfl
  | keep ht h ih => rw [ih (List.forall_mem_cons.1 hts).2]
  | cut hcast htype h ih =>
    rw [(List.forall_mem_cons.1 hts).1] at hcast
    cases hcast

/-- From any depth, the tokens that stay keep theirs: what is cut out between them opens
and closes as much. -/
theorem depth_eq {depth : Int} (h : CutOut ts us) (hstays : staysOpen depth ts = true) :
    staysOpen depth us = true ∧ depthAfter depth us = depthAfter depth ts := by
  induction h generalizing depth with
  | nil => exact ⟨rfl, rfl⟩
  | @keep t ts us ht h ih =>
    rw [staysOpen, Bool.and_eq_true] at hstays ⊢
    obtain ⟨hopen, hmore⟩ := ih hstays.2
    exact ⟨⟨hstays.1, hopen⟩, hmore⟩
  | @cut cast type ts us hcast htype h ih =>
    have hturn : depth + cast.turn = depth := by rw [turn_of_isCast hcast, Int.add_zero]
    have hwithin : depthAfter depth type = depth := by rw [depthAfter_add, htype.2, Int.add_zero]
    rw [staysOpen, hturn, Bool.and_eq_true, staysOpen_append, hwithin, Bool.and_eq_true] at hstays
    obtain ⟨hopen, hmore⟩ := ih hstays.2.2
    refine ⟨hopen, ?_⟩
    rw [depthAfter_cons, hturn, depthAfter_append, hwithin]
    exact hmore

theorem balanced (h : CutOut ts us) (hts : Balanced ts) : Balanced us := by
  obtain ⟨hstays, hdepth⟩ := h.depth_eq hts.1
  exact ⟨hstays, hdepth.trans hts.2⟩

end CutOut

/-! ## Layers of parentheses -/

theorem Layers.balanced (h : Layers core ts) (hts : Balanced ts) : Balanced core := by
  induction h with
  | none => exact hts
  | layer h hgroup ih =>
    obtain ⟨o, c, -, -, -, hinner⟩ := hgroup
    exact ih hinner

theorem peel?_unwrap (ts : List Token) : peel? (unwrap ts) = none := by
  fun_induction unwrap ts with
  | case1 ts inner hpeel ih => exact ih
  | case2 ts hpeel => exact hpeel

/-- Of a balanced expression, stripping leaves balanced tokens in their order, without
casts and all of them if there is none to strip; and unwrapping leaves the balanced tokens
inside of some layers of parentheses, when no further one comes off. -/
theorem rewrites_stay_balanced (ts : List Token) (h : Balanced ts) :
    (Balanced (stripCasts ts) ∧ (stripCasts ts).Sublist ts ∧ (∀ t ∈ stripCasts ts, isCast t = false) ∧
        ((∀ t ∈ ts, isCast t = false) → stripCasts ts = ts)) ∧
      Balanced (unwrap ts) ∧ Layers (unwrap ts) ts ∧ peel? (unwrap ts) = none := by
  have hcut := cutOut_stripCasts (castsClosed_of_balanced h)
  have hlayers := unwrap_layers h
  exact ⟨⟨hcut.balanced h, hcut.sublist, hcut.isCast_eq_false, hcut.eq_self⟩, hlayers.balanced h, hlayers,
    peel?_unwrap ts⟩

/-- A cast with parameters, in two layers of parentheses. -/
theorem rewrites_stay_balanced_numeric :
    let ts : List Token := [⟨.punct, ['('], 0, true⟩, ⟨.punct, ['('], 1, false⟩, ⟨.number, ['1'], 2, false⟩,
      ⟨.op, [':', ':'], 3, false⟩, ⟨.word, "numeric".toList, 5, false⟩, ⟨.punct, ['('], 12, false⟩,
      ⟨.number, ['4'], 13, false⟩, ⟨.punct, [')'], 14, false⟩, ⟨.punct, [')'], 15, false⟩,
      ⟨.punct, [')'], 16, false⟩]
    Balanced ts ∧
      (Balanced (stripCasts ts) ∧ (stripCasts ts).Sublist ts ∧ (∀ t ∈ stripCasts ts, isCast t = false) ∧
        ((∀ t ∈ ts, isCast t = false) → stripCasts ts = ts)) ∧
      Balanced (unwrap ts) ∧ Layers (unwrap ts) ts ∧ peel? (unwrap ts) = none := by
  intro ts
  have hbalanced : Balanced ts := by decide
  exact ⟨hbalanced, rewrites_stay_balanced ts hbalanced⟩

end TableDialects.Expression
