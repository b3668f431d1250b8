import TableDialects.Dialect.Basic
import TableDialects.Proofs.Token.Layout

/- Text in quotes. A quote inside is written twice, so that the closing quote is the
   first one that stands alone. A name in the quotes of a dialect is one identifier
   in front of every text that does not start with the closing quote
   (`readsToken_quote`), and it stands for the name without the white space and the
   quotes at its edges (`unquoteIdentifier_quote`). -/
namespace TableDialects

open Scan

theorem quotedBody_append {q : Char} {n : Text} (h : q ∉ n) : QuotedBody q (n ++ [q]) := by
  induction n with
  | nil => exact .close
  | cons c n ih =>
    rw [List.mem_cons, not_or] at h
    exact .other (Ne.symm h.1) (ih h.2)

theorem double_of_not_mem {q : Char} {s : Text} (h : q ∉ s) : Text.double q s = s := by
  induction s with
  | nil => rfl
  | cons c s ih =>
    rw [List.mem_cons, not_or] at h
    have hs := ih h.2
    unfold Text.double at hs ⊢
    rw [List.flatMap_cons, hs, if_neg (Ne.symm h.1)]
    rfl

theorem undouble_cons {q c : Char} (hc : c ≠ q) (s : Text) :
    Text.undouble q (c :: s) = c :: Text.undouble q s := by
  cases s with
  | nil => rfl
  | cons d s => rw [Text.undouble, if_neg fun h => hc h.1]

theorem undouble_double (q : Char) (s : Text) : Text.undouble q (Text.double q s) = s := by
  induction s with
  | nil => rfl
  | cons c s ih =>
    unfold Text.double at ih ⊢
    rw [List.flatMap_cons]
    by_cases hc : c = q
    · subst hc
      rw [if_pos rfl, List.cons_append, List.singleton_append, Text.undouble, if_pos ⟨rfl, rfl⟩, ih]
    · rw [if_neg hc, List.singleton_append, undouble_cons hc, ih]

/-! ## Names in the quotes of a dialect -/

theorem quote_eq (d : Dialect) (n : Text) :
    d.quote n = d.profile.quoteOpen ::
      (Text.double d.profile.quoteClose (Dialect.bareName n) ++ [d.profile.quoteClose]) := rfl

theorem nameQuotes (d : Dialect) : NameQuotes d.profile.quoteOpen d.profile.quoteClose := by
  unfold NameQuotes
  cases d <;> decide

theorem readsToken_quote (d : Dialect) (n : Text) {r : Text}
    (hr : Stops (· == d.profile.quoteClose) r) : ReadsToken .ident (d.quote n) r :=
  readsToken_ident (nameQuotes d) (quotedBody_double _ _) (runsOn_of_stops hr)

theorem tokenize_quote (d : Dialect) (n : Text) : tokenize (d.quote n) = [⟨.ident, d.quote n, 0, false⟩] := by
  obtain ⟨c, w, hquote, hpiece⟩ := readsToken_quote d n (stops_nil _)
  rw [List.append_nil] at hpiece
  rw [hquote] at hpiece ⊢
  rw [tokenize, tokensFrom_of_token hpiece, tokensFrom_nil]

theorem unquoteIdentifier_double {o q : Char} (ho : NameQuotes o q) (n : Text) :
    unquoteIdentifier (o :: (Text.double q n ++ [q])) = n := by
  have hundouble := undouble_double q n
  generalize Text.double q n = body at hundouble ⊢
  have hlast : (o :: (body ++ [q])).getLast? = some q := by
    rw [← List.cons_append, List.getLast?_concat]
  obtain ⟨c, rest, hrest⟩ : ∃ c rest, body ++ [q] = c :: rest := by
    cases body with
    | nil => exact ⟨_, _, rfl⟩
    | cons c body => exact ⟨c, _, rfl⟩
  have hbody : (c :: rest).dropLast = body := by rw [← hrest, List.dropLast_concat]
  rw [hrest] at hlast ⊢
  unfold unquoteIdentifier
  rw [hlast]
  simp only [hbody]
  rcases ho with ⟨rfl, rfl⟩ | ⟨rfl, rfl⟩ | ⟨rfl, rfl⟩ <;> exact hundouble

/-- An identifier in quotes stands for the name without the white space and the
quotes at its edges. -/
theorem unquoteIdentifier_quote (d : Dialect) (n : Text) :
    unquoteIdentifier (d.quote n) = Dialect.bareName n :=
  unquoteIdentifier_double (nameQuotes d) _

/-- In brackets, digits alone are an array suffix and no name. -/
theorem isArraySuffix_brackets (m : Text) :
    isArraySuffix ('[' :: (Text.double ']' m ++ [']'])) = m.all Text.isDigit := by
  induction m with
  | nil => rfl
  | cons c m ih =>
    have hclose : Text.isDigit ']' = false := by decide
    unfold Text.double at ih ⊢
    rw [List.flatMap_cons, List.all_cons]
    by_cases hc : c = ']'
    · subst hc
      rw [if_pos rfl, hclose, isArraySuffix]
      simp only [List.cons_append, List.nil_append, List.dropWhile_cons_of_neg (Bool.eq_false_iff.1 hclose)]
      rfl
    · rw [if_neg hc, isArraySuffix]
      cases hd : Text.isDigit c with
      | true =>
        simp only [List.cons_append, List.nil_append, List.dropWhile_cons_of_pos hd]
        rw [Bool.true_and, ← ih]
        rfl
      | false =>
        simp only [List.cons_append, List.nil_append, List.dropWhile_cons_of_neg (Bool.eq_false_iff.1 hd)]
        split
        · rename_i heq
          exact absurd (List.cons.inj heq).1 hc
        · rfl

theorem isArraySuffix_quote (d : Dialect) (n : Text) :
    isArraySuffix (d.quote n) = (d == .sqlserver && (Dialect.bareName n).all Text.isDigit) := by
  cases d with
  | sqlserver => exact isArraySuffix_brackets _
  | mysql => rfl
  | postgresql => rfl
  | sqlite => rfl

/-! ## Names that quoting keeps -/

theorem Stops.dropWhile_eq {p : Char → Bool} {s : Text} (h : Stops p s) : s.dropWhile p = s := by
  cases s with
  | nil => rfl
  | cons c s => exact List.dropWhile_cons_of_neg (Bool.eq_false_iff.1 (stops_cons.1 h))

theorem stops_of_dropWhile_eq {p : Char → Bool} {s : Text} (h : s.dropWhile p = s) : Stops p s := by
  rw [← h]
  exact stops_dropWhile p s

theorem isPrefix_trimEnd (p : Char → Bool) (s : Text) : Text.trimEnd p s <+: s := by
  have h := List.reverse_prefix.2 (List.dropWhile_suffix (l := s.reverse) p)
  rwa [List.reverse_reverse] at h

theorem trim_infix (p : Char → Bool) (s : Text) : Text.trim p s <:+: s :=
  (isPrefix_trimEnd p _).isInfix.trans (List.dropWhile_suffix p).isInfix

theorem isInfix_bareName (n : Text) : Dialect.bareName n <:+: n := by
  have hquotes : Dialect.bareName n <:+: Text.strip n := trim_infix _ _
  exact hquotes.trans <| trim_infix _ _

/-- Trimming keeps a text if it takes nothing away at either edge. -/
theorem trim_eq_self_iff {p : Char → Bool} {s : Text} :
    Text.trim p s = s ↔ Stops p s ∧ Stops p s.reverse := by
  constructor
  · intro h
    have hsuffix : s.dropWhile p <:+ s := List.dropWhile_suffix p
    have hprefix : Text.trim p s <+: s.dropWhile p := isPrefix_trimEnd p _
    rw [h] at hprefix
    have hstart : s.dropWhile p = s :=
      hsuffix.eq_of_length (Nat.le_antisymm hsuffix.length_le hprefix.length_le)
    have hend : (s.reverse.dropWhile p).reverse = s := by
      rw [Text.trim, Text.trimStart, hstart] at h
      exact h
    exact ⟨stops_of_dropWhile_eq hstart, stops_of_dropWhile_eq (List.reverse_eq_iff.1 hend)⟩
  · rintro ⟨hfirst, hlast⟩
    unfold Text.trim Text.trimEnd Text.trimStart
    rw [hfirst.dropWhile_eq, hlast.dropWhile_eq, List.reverse_reverse]

namespace Dialect

/-- Whether the character may stand at the edge of a name that quoting keeps. -/
def isEdge (c : Char) : Bool := !Text.isBlank c && !isQuote c

/-- Whether quoting in the dialect keeps the name: it is not empty, no white space
and no quote of any dialect stands at its edges, and for SQL Server it does not
consist of digits. -/
def transports (d : Dialect) (n : Text) : Bool :=
  !n.isEmpty && n.head?.all isEdge && n.getLast?.all isEdge
    && !(d == .sqlserver && n.all Text.isDigit)

theorem bareName_eq_self_iff {n : Text} :
    bareName n = n ↔ n.head?.all isEdge = true ∧ n.getLast?.all isEdge = true := by
  have hedges : ∀ s : Text, (Stops Text.isBlank s ∧ Stops isQuote s) ↔ s.head?.all isEdge = true := by
    intro s
    cases s with
    | nil => simp [stops_nil]
    | cons c s => simp [stops_cons, isEdge]
  rw [← hedges, ← List.head?_reverse, ← hedges]
  constructor
  · intro h
    -- The name is a part of the stripped name, which is a part of the name.
    have hquotes : bareName n <:+: Text.strip n := trim_infix _ _
    have hblanks : Text.strip n <:+: n := trim_infix _ _
    rw [h] at hquotes
    have hstrip : Text.strip n = n :=
      hblanks.eq_of_length (Nat.le_antisymm hblanks.length_le hquotes.length_le)
    rw [bareName, hstrip] at h
    obtain ⟨hb, hb'⟩ := trim_eq_self_iff.1 hstrip
    obtain ⟨hq, hq'⟩ := trim_eq_self_iff.1 h
    exact ⟨⟨hb, hq⟩, hb', hq'⟩
  · rintro ⟨⟨hb, hq⟩, hb', hq'⟩
    rw [bareName, Text.strip, trim_eq_self_iff.2 ⟨hb, hb'⟩, trim_eq_self_iff.2 ⟨hq, hq'⟩]

/-- A name is transported if quoting takes nothing away and the quoted name is no
array suffix. -/
theorem transports_iff {d : Dialect} {n : Text} :
    d.transports n = true ↔ n ≠ [] ∧ bareName n = n ∧ isArraySuffix (d.quote n) = false := by
  have hsplit : d.transports n = true ↔ n ≠ [] ∧ bareName n = n ∧
      (d == .sqlserver && n.all Text.isDigit) = false := by
    rw [bareName_eq_self_iff, transports]
    simp only [Bool.and_eq_true, Bool.not_eq_true', List.isEmpty_eq_false_iff, and_assoc]
  rw [hsplit, isArraySuffix_quote]
  constructor
  · rintro ⟨hne, hbare, hdigits⟩
    exact ⟨hne, hbare, by rw [hbare]; exact hdigits⟩
  · rintro ⟨hne, hbare, hdigits⟩
    rw [hbare] at hdigits
    exact ⟨hne, hbare, hdigits⟩

end Dialect

end TableDialects
