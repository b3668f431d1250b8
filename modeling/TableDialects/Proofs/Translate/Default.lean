import TableDialects.Proofs.Translate.Places
import TableDialects.Proofs.Written.Column

/- Defaults in another dialect. A default that is a single value stays one: a truth
   value in the notation of the target, else the value as it was, without the N of
   a national string where the target has none (`Direction.outcome_default?`). -/
namespace TableDialects

/-! ## Values are no calls -/

namespace Expression

theorem afterWord?_head {w : Text} {c : Char} {s : Text} (hw : w ≠ [])
    (h : ∀ l ∈ w.head?, Text.sameLetter l c = false) : Text.afterWord? w (c :: s) = none := by
  cases w with
  | nil => exact absurd rfl hw
  | cons l w => rw [Text.afterWord?, h l rfl]; rfl

/-- The names of the calls for the current time start with other characters. -/
theorem isTimeCall_of_head {c : Char} (h : ∀ l ∈ "NGSLCD".toList, Text.sameLetter l c = false) (s : Text) :
    isTimeCall (c :: s) = false := by
  have hheads : ∀ call ∈ timeCalls, call.toList ≠ [] ∧ ∀ l ∈ call.toList.head?, l ∈ "NGSLCD".toList := by
    decide +kernel
  have hnone : ∀ call ∈ timeCalls, Text.afterWord? call (c :: s) = none := fun call hcall =>
    afterWord?_head (hheads call hcall).1 fun l hl => h l ((hheads call hcall).2 l hl)
  unfold isTimeCall
  rw [hnone "CURRENT_TIMESTAMP" (by decide), List.any_eq_false.2]
  · rfl
  · intro call hcall
    rw [hnone call hcall]
    exact fun h => nomatch h

theorem isTimeCall_national {c : Char} (hc : c = 'N' ∨ c = 'n') (s : Text) :
    isTimeCall (c :: '\'' :: s) = false := by
  rcases hc with rfl | rfl <;> rfl

end Expression

theorem Text.squeeze_cons {c : Char} (h : isBlank c = false) (s : Text) : squeeze (c :: s) = c :: squeeze s := by
  unfold squeeze
  rw [List.filter_cons_of_pos (by rw [h]; rfl)]

theorem Token.IsValue.isTimeCall {t : Token} (h : t.IsValue) :
    Expression.isTimeCall (Text.squeeze t.value) = false := by
  obtain ⟨kind, value, start, spaced⟩ := t
  cases kind with
  | number =>
    have hletters : ∀ l ∈ "NGSLCD".toList, Text.isAsciiLetter l = true ∧ Text.sameLetter l '.' = false := by
      decide
    obtain ⟨c, w, hv, hc⟩ := ReadsNumber.head h
    cases show value = c :: w from hv
    rcases hc with hc | rfl
    · rw [Text.squeeze_cons (isBlank_of_isDigit hc)]
      exact Expression.isTimeCall_of_head (fun l hl => Text.sameLetter_of_isDigit (hletters l hl).1 hc) _
    · exact Expression.isTimeCall_of_head (fun l hl => (hletters l hl).2) _
  | string =>
    obtain ⟨lead, body, hv, hlead, -⟩ := IsLiteral.parts h
    cases show value = lead ++ '\'' :: body from hv
    rcases hlead with rfl | rfl | rfl
    · exact Expression.isTimeCall_of_head (by decide) _
    · exact Expression.isTimeCall_national (.inl rfl) _
    · exact Expression.isTimeCall_national (.inr rfl) _
  | word => rcases h with h | h <;> cases h <;> rfl
  | _ => cases h

/-! ## Truth values -/

def Dialect.booleanToken (d : Dialect) (b : Bool) : Token :=
  match d with
  | .mysql => ⟨.string, d.boolean b, 0, true⟩
  | .postgresql => ⟨.word, d.boolean b, 0, true⟩
  | _ => ⟨.number, d.boolean b, 0, true⟩

theorem isValue_booleanToken (d : Dialect) (b : Bool) : (d.booleanToken b).IsValue := by
  have hliteral : ∀ c ∈ "01".toList, IsLiteral ['\'', c, '\''] := by
    have hplain : ∀ c ∈ "01".toList, c ≠ '\'' ∧ ∀ e ∈ ['\'', c, '\''], e ≠ '\n' ∧ e ≠ '\r' := by decide
    intro c hc
    exact ⟨⟨[], [c, '\''], rfl, .inl rfl, .other (hplain c hc).1 .close⟩, (hplain c hc).2⟩
  have hnumber : ∀ c ∈ "01".toList, Scan.ReadsNumber [c] [] := by
    have hdigits : ∀ c ∈ "01".toList, Params.isDigits [c] = true := by decide
    exact fun c hc => Params.printed_digits (hdigits c hc) 0 true
  cases d with
  | mysql => cases b with
    | true => exact hliteral '1' (by decide)
    | false => exact hliteral '0' (by decide)
  | postgresql => cases b with
    | true => exact .inl rfl
    | false => exact .inr rfl
  | _ => cases b with
    | true => exact hnumber '1' (by decide)
    | false => exact hnumber '0' (by decide)

theorem value_booleanToken (d : Dialect) (b : Bool) : (d.booleanToken b).value = d.boolean b := by
  cases d <;> rfl

/-! ## Defaults -/

namespace Expression

variable {t : Token}

theorem unwrap_single (t : Token) : unwrap [t] = [t] := by
  rw [unwrap_eq]
  rfl

theorem stripCasts_value (h : t.IsValue) : stripCasts [t] = [t] := by
  have hcast : isCast t = false := by
    unfold isCast
    rw [beq_eq_false_iff_ne.2, Bool.false_and]
    intro hk
    unfold Token.IsValue at h
    rw [hk] at h
    cases h
  rw [stripCasts, hcast, stripCasts]
  rfl

theorem isValue_respell (source target : Dialect) (h : t.IsValue) :
    (⟨t.kind, respell source target t, 0, true⟩ : Token).IsValue := by
  obtain ⟨kind, value, start, spaced⟩ := t
  cases kind with
  | string =>
    obtain ⟨⟨lead, body, hv, hlead, hbody⟩, hline⟩ := id h
    cases show value = lead ++ '\'' :: body from hv
    show IsLiteral (if _ then (lead ++ '\'' :: body).drop 1 else lead ++ '\'' :: body)
    split
    · -- Behind the N the literal stands as it would alone.
      have hplain : ∀ n : Char, lead = [n] → IsLiteral ((lead ++ '\'' :: body).drop 1) := by
        rintro n rfl
        exact ⟨⟨[], body, rfl, .inl rfl, hbody⟩, fun c hc => hline c (List.mem_cons_of_mem n hc)⟩
      rcases hlead with rfl | hlead | hlead
      · rename_i hnational
        cases hnational
      · exact hplain 'N' hlead
      · exact hplain 'n' hlead
    · exact h
  | ident => cases h
  | punct => cases h
  | op => cases h
  | _ => exact h

theorem outcome_render (source target : Dialect) (h : t.IsValue) :
    (render source target [t]).outcome = .ok (respell source target t) := by
  have htext : renderTokensWith (respell source target) [t] = respell source target t := List.append_nil _
  unfold render
  split
  · exact congrArg Except.ok htext
  · rw [stripCasts_value h]
    exact congrArg Except.ok htext

end Expression

theorem Direction.outcome_default? (d : Direction) {c : Column} {t : Token} (hc : c.default = some [t])
    (ht : t.IsValue) :
    ∃ u : Token, (d.default? c).outcome = .ok (some u.value) ∧ u.IsValue ∧ u.start = 0 ∧ u.spaced = true := by
  unfold default?
  rw [hc]
  dsimp only
  rw [Expression.unwrap_single, Traced.outcome_bind, Traced.outcome_recordIf]
  dsimp only [Except.bind]
  cases booleanDefault? c [t] with
  | some b =>
    refine ⟨d.target.booleanToken b, ?_, isValue_booleanToken d.target b, ?_, ?_⟩
    · rw [value_booleanToken]
      rfl
    · cases d.target <;> rfl
    · cases d.target <;> rfl
  | none =>
    have hvalue := Expression.isValue_respell d.source d.target ht
    refine ⟨_, ?_, hvalue, rfl, rfl⟩
    dsimp only
    rw [Traced.outcome_bind, Expression.outcome_render d.source d.target ht]
    dsimp only [Except.bind]
    rw [hvalue.isTimeCall]
    rfl

end TableDialects
