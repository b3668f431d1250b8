import TableDialects.Proofs.Token.Quoted
import TableDialects.Proofs.Token.Slice
import TableDialects.Token.Cursor

/- Names through quoting and reading. A name in the quotes of a dialect is read as
   the name without the white space and the quotes at its edges, and in brackets
   a name of digits alone is refused as an array suffix (`askAll_quote`). So
   exactly the names that a dialect transports come back, and these stay distinct
   (`quoted_name_comes_back`). Whatever the name holds, none of it gets out of the
   quotes: the text behind them is scanned as if it stood alone
   (`quoted_name_confined`). -/
namespace TableDialects
namespace Dialect

/-- What a cursor answers when it is asked for the name in quotes, and then
whether all is consumed. -/
theorem askAll_quote (d : Dialect) (what n : Text) :
    (Cursor.start (tokenize (d.quote n))).askAll [.name what, .atEnd] =
      if isArraySuffix (d.quote n) then
        [(.failure (.expectedName what (d.quote n)), 0), (.flag false, 0)]
      else [(.text (bareName n), 1), (.flag true, 1)] := by
  have hidentifier : (⟨.ident, d.quote n, 0, false⟩ : Token).isIdentifier =
      !isArraySuffix (d.quote n) := rfl
  have hname : (⟨.ident, d.quote n, 0, false⟩ : Token).name = bareName n :=
    unquoteIdentifier_quote d n
  have htake : takeName what [⟨.ident, d.quote n, 0, false⟩] =
      if isArraySuffix (d.quote n) then
        .error ⟨.expectedName what (d.quote n), [⟨.ident, d.quote n, 0, false⟩]⟩
      else .ok (bareName n, []) := by
    rw [takeName, hidentifier, hname]
    cases isArraySuffix (d.quote n) <;> rfl
  rw [tokenize_quote, Cursor.askAll, Cursor.ask]
  have hrest : (Cursor.start [⟨.ident, d.quote n, 0, false⟩]).rest = [⟨.ident, d.quote n, 0, false⟩] := rfl
  rw [hrest, htake]
  cases isArraySuffix (d.quote n) <;> rfl

/-- A name in the quotes of a dialect is answered to a cursor that asks for it,
with nothing left, for exactly the names that the dialect transports; such names
stay distinct in quotes. -/
theorem quoted_name_comes_back (d : Dialect) (what : Text) {n : Text} (hn : n ≠ []) :
    ((Cursor.start (tokenize (d.quote n))).askAll [.name what, .atEnd] =
        [(.text n, 1), (.flag true, 1)] ↔ d.transports n = true) ∧
      ∀ m, d.transports n = true → d.transports m = true → d.quote n = d.quote m → n = m := by
  constructor
  · rw [askAll_quote, transports_iff]
    cases hsuffix : isArraySuffix (d.quote n) with
    | true => simp
    | false => simp [hn]
  · intro m hfirst hsecond hquote
    calc n = bareName n := (transports_iff.1 hfirst).2.1.symm
      _ = unquoteIdentifier (d.quote n) := (unquoteIdentifier_quote d n).symm
      _ = unquoteIdentifier (d.quote m) := by rw [hquote]
      _ = bareName m := unquoteIdentifier_quote d m
      _ = m := (transports_iff.1 hsecond).2.1

/-- A closing bracket, a quote and a digit inside a name. -/
theorem quoted_name_comes_back_brackets :
    "7]\"x".toList ≠ [] ∧
      (((Cursor.start (tokenize (Dialect.sqlserver.quote "7]\"x"))).askAll [.name "name", .atEnd] =
          [(.text "7]\"x", 1), (.flag true, 1)] ↔ Dialect.sqlserver.transports "7]\"x" = true) ∧
        ∀ m, Dialect.sqlserver.transports "7]\"x" = true → Dialect.sqlserver.transports m = true →
          Dialect.sqlserver.quote "7]\"x" = Dialect.sqlserver.quote m → "7]\"x".toList = m) ∧
      Dialect.sqlserver.transports "7]\"x" = true :=
  ⟨by decide, quoted_name_comes_back .sqlserver "name" (by decide), by decide⟩

/-- Quotes at the edges of a name are lost, so that a quoted name may come back as
another one. -/
theorem quoted_name_loses_edges :
    ¬ ∀ (sql what : Text) (d : Dialect), ∀ t ∈ tokenize sql, t.isIdentifier = true → t.name ≠ [] →
      (Cursor.start (tokenize (d.quote t.name))).askAll [.name what, .atEnd] =
        [(.text t.name, 1), (.flag true, 1)] := by
  intro h
  have htoken : (⟨.ident, "`\"a\"`".toList, 0, false⟩ : Token) ∈ tokenize "`\"a\"`".toList := by
    decide +kernel
  have hname : (⟨.ident, "`\"a\"`".toList, 0, false⟩ : Token).name = "\"a\"".toList := by
    decide
  have hanswer := h _ "name" .mysql _ htoken (by decide) (by decide)
  rw [hname, askAll_quote] at hanswer
  revert hanswer
  decide

/-! ## Text behind a name -/

/-- A name in quotes is the first token of a text that does not go on with the
closing quote, and the other tokens are those of what stands behind it. -/
theorem tokenize_quote_append (d : Dialect) (n : Text) {r : Text}
    (hr : Stops (· == d.profile.quoteClose) r) :
    tokenize (d.quote n ++ r) =
      ⟨.ident, d.quote n, 0, false⟩ :: (tokenize r).map (Token.moved (d.quote n).length) := by
  have hrest : Scanned (d.quote n).length false r ((tokenize r).map (Token.moved (d.quote n).length)) :=
    (scanned_tokenize r).moved (d.quote n).length
  obtain ⟨c, w, hquote, hpiece⟩ := readsToken_quote d n hr
  calc tokenize (d.quote n ++ r)
      = Scan.tokensFrom 0 false (c :: (w ++ r)) := by rw [hquote]; rfl
    _ = ⟨.ident, d.quote n, 0, false⟩ :: Scan.tokensFrom (0 + (d.quote n).length) false r := by
      rw [hquote] at hpiece ⊢
      exact tokensFrom_of_token hpiece 0 false
    _ = ⟨.ident, d.quote n, 0, false⟩ :: (tokenize r).map (Token.moved (d.quote n).length) := by
      rw [Nat.zero_add, hrest.tokensFrom_eq]

/-- A name in the quotes of a dialect stays in them: in front of any text that does
not start with the closing quote it is one identifier, which stands for the name
without white space and then quotes at its edges, and the text is scanned as it
is alone, behind the name. -/
theorem quoted_name_confined (d : Dialect) (n r : Text) (hr : r.head? ≠ some d.profile.quoteClose) :
    ∃ t, tokenize (d.quote n ++ r) = t :: (tokenize r).map (Token.moved (d.quote n).length) ∧
      t.kind = .ident ∧ t.value = d.quote n ∧ t.start = 0 ∧ t.spaced = false ∧
      t.name = Text.trim isQuote (Text.strip n) := by
  have hstops : Stops (· == d.profile.quoteClose) r := by
    intro c hc
    have hne : c ≠ d.profile.quoteClose := by
      rintro rfl
      exact hr hc
    exact beq_eq_false_iff_ne.2 hne
  exact ⟨_, tokenize_quote_append d n hstops, rfl, rfl, rfl, rfl, unquoteIdentifier_quote d n⟩

/-- A closing bracket, marks of comments, a separator and a line end inside a name,
and brackets behind it. -/
theorem quoted_name_confined_marks :
    ".[x]".toList.head? ≠ some Dialect.sqlserver.profile.quoteClose ∧
      ∃ t, tokenize ("[a]]\n--;/*'`b]".toList ++ ".[x]".toList) =
          [t, ⟨.punct, ".", 14, false⟩, ⟨.ident, "[x]", 15, false⟩] ∧
        t.kind = .ident ∧ t.value = "[a]]\n--;/*'`b]".toList ∧ t.start = 0 ∧ t.spaced = false ∧
        t.name = "a]\n--;/*'`b".toList := by
  have hquote : Dialect.sqlserver.quote " \"a]\n--;/*'`b]` " = "[a]]\n--;/*'`b]".toList := by decide
  have hname : Text.trim isQuote (Text.strip " \"a]\n--;/*'`b]` ") = "a]\n--;/*'`b".toList := by decide
  have hrest : (tokenize ".[x]".toList).map (Token.moved "[a]]\n--;/*'`b]".toList.length) =
      [⟨.punct, ".", 14, false⟩, ⟨.ident, "[x]", 15, false⟩] := by decide +kernel
  have hfollows : ".[x]".toList.head? ≠ some Dialect.sqlserver.profile.quoteClose := by decide
  obtain ⟨t, htokens, hkind, hvalue, hstart, hspaced, hstripped⟩ :=
    quoted_name_confined .sqlserver " \"a]\n--;/*'`b]` " ".[x]" hfollows
  rw [hquote, hrest] at htokens
  exact ⟨hfollows, t, htokens, hkind, hvalue.trans hquote, hstart, hspaced, hstripped.trans hname⟩

end Dialect
end TableDialects
