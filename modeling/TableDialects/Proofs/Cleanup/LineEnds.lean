import TableDialects.Proofs.Cleanup.Places

/- Line ends. Writing every line end as a line feed keeps the tokens of a text
   in which quoted text keeps to one line and no line comment goes on behind a
   carriage return (`Atom.wordsOf_unixLines`). -/
namespace TableDialects

open Scan

theorem thinned_unixLines (s : Text) : Thinned s (Text.unixLines s) := by
  fun_induction Text.unixLines s with
  | case1 => exact .stop []
  | case2 s ih => exact .gap (by decide) ['\r', '\n'] ih
  | case3 c s _ ih =>
    split
    · exact .gap (by decide) [c] ih
    · exact .keep c ih

theorem unixLines_cons {c : Char} (hc : c ≠ '\r') (s : Text) :
    Text.unixLines (c :: s) = c :: Text.unixLines s := by
  rw [Text.unixLines]
  · rw [if_neg hc]
  · rintro t rfl
    exact absurd rfl hc

/-- A carriage return becomes a line feed or goes, as one follows it. -/
theorem unixLines_return (s : Text) :
    Text.unixLines ('\r' :: s) = '\n' :: Text.unixLines s ∨
      (∃ t, s = '\n' :: t) ∧ Text.unixLines ('\r' :: s) = Text.unixLines s := by
  by_cases hs : ∃ t, s = '\n' :: t
  · obtain ⟨t, rfl⟩ := hs
    refine .inr ⟨⟨t, rfl⟩, ?_⟩
    rw [Text.unixLines, unixLines_cons (by decide)]
  · refine .inl ?_
    rw [Text.unixLines]
    · rfl
    · intro t _ ht
      exact hs ⟨t, ht⟩

theorem unixLines_append {v : Text} (hv : ∀ c ∈ v, c ≠ '\r') (s : Text) :
    Text.unixLines (v ++ s) = v ++ Text.unixLines s := by
  induction v with
  | nil => rfl
  | cons c v ih =>
    rw [List.cons_append, unixLines_cons (hv c List.mem_cons_self),
      ih fun d hd => hv d (List.mem_cons_of_mem c hd)]
    rfl

theorem unixLines_split {c : Char} (hr : c ≠ '\r') (hn : c ≠ '\n') (x s : Text) :
    Text.unixLines (x ++ c :: s) = Text.unixLines x ++ c :: Text.unixLines s := by
  fun_induction Text.unixLines x with
  | case1 => exact unixLines_cons hr s
  | case2 x ih => rw [List.cons_append, List.cons_append, Text.unixLines, ih]; rfl
  | case3 d x hx ih =>
    rw [List.cons_append, List.cons_append, ← ih]
    split
    · rename_i hd
      subst hd
      rcases unixLines_return (x ++ c :: s) with h | ⟨⟨t, ht⟩, -⟩
      · exact h
      · cases x with
        | nil => exact absurd (List.cons.inj ht).1 hn
        | cons e x =>
          obtain rfl : e = '\n' := (List.cons.inj ht).1
          exact absurd rfl (hx x rfl)
    · rename_i hd
      exact unixLines_cons hd _

theorem Thinned.suffix {s x y : Text} (h : Thinned s (x ++ y)) : ∃ r, r <:+ s ∧ Thinned r y := by
  induction x generalizing s with
  | nil => exact ⟨s, List.suffix_rfl, h⟩
  | cons c x ih =>
    cases h with
    | keep c h =>
      obtain ⟨r, hr, hthin⟩ := ih h
      exact ⟨r, hr.trans (List.suffix_cons _ _), hthin⟩
    | gap hc g h =>
      obtain ⟨r, hr, hthin⟩ := ih h
      exact ⟨r, hr.trans (List.suffix_append _ _), hthin⟩

theorem Thinned.starSlash {s s' : Text} (h : Thinned s s') (hin : ['*', '/'] <:+: s') :
    ['*', '/'] <:+: s := by
  obtain ⟨x, y, rfl⟩ := hin
  rw [List.append_assoc] at h
  obtain ⟨r, hr, hthin⟩ := h.suffix
  obtain ⟨r₁, rfl, hthin₁⟩ := hthin.of_cons (by decide)
  obtain ⟨r₂, rfl, -⟩ := hthin₁.of_cons (by decide)
  exact (show ['*', '/'] <+: '*' :: '/' :: r₂ from ⟨r₂, rfl⟩).isInfix.trans hr.isInfix

theorem IsCommentBody.unixLines {b : Text} (h : IsCommentBody b) :
    IsCommentBody (Text.unixLines b) ∧
      ∀ s, Text.unixLines (b ++ s) = Text.unixLines b ++ Text.unixLines s := by
  obtain ⟨b, rfl, hb⟩ := h
  have hsplit : ∀ s, Text.unixLines (b ++ '*' :: s) = Text.unixLines b ++ '*' :: Text.unixLines s :=
    unixLines_split (by decide) (by decide) b
  refine ⟨⟨Text.unixLines b, hsplit ['/'], fun hin => hb ?_⟩, fun s => ?_⟩
  · exact Thinned.starSlash (thinned_unixLines (b ++ ['*'])) (hsplit [] ▸ hin)
  · have := hsplit ('/' :: s)
    rw [unixLines_cons (by decide)] at this
    rw [hsplit ['/'], show Text.unixLines ['/'] = ['/'] from rfl]
    simpa using this

namespace Atom

/-- Whether the atom keeps to one line: no line end in quoted text, and no carriage
return in a line comment but at its end. -/
def isOneLine : Atom → Bool
  | token k v => !(k == .string || k == .ident) || v.all fun c => c != '\n' && c != '\r'
  | line b => b.dropLast.all (· != '\r')
  | _ => true

theorem oneLine_token {k : TokenKind} {v r : Text} (h : ReadsToken k v r)
    (hone : (token k v).isOneLine = true) : ∀ c ∈ v, c ≠ '\n' ∧ c ≠ '\r' := by
  refine h.oneLine fun hk => ?_
  have hq : (k == .string || k == .ident) = true := by simpa using hk
  simpa [isOneLine, hq] using hone

theorem wordsOf_unixLines_return (s : Text) :
    wordsOf (Text.unixLines ('\r' :: s)) = wordsOf (Text.unixLines s) := by
  rcases unixLines_return s with h | ⟨-, h⟩
  · rw [h, wordsOf_blank (by decide)]
  · rw [h]

theorem wordsOf_unixLines_line {v s : Text} (hv : ∀ c ∈ v, c ≠ '\r')
    (hv' : ∀ c ∈ v, (c != '\n') = true) (hs : Stops (· != '\n') (Text.unixLines s)) :
    wordsOf (Text.unixLines ('-' :: '-' :: (v ++ s))) = wordsOf (Text.unixLines s) := by
  rw [unixLines_cons (by decide), unixLines_cons (by decide), unixLines_append hv,
    wordsOf_of_gap (piece_line hv' hs)]

/-- A carriage return at the end of a line comment is part of the line end, or the
last character of the text. -/
theorem wordsOf_unixLines_lineReturn {v s : Text} (hv : ∀ c ∈ v, c ≠ '\r')
    (hv' : ∀ c ∈ v, (c != '\n') = true) (hs : Stops (· != '\n') (Text.unixLines s)) :
    wordsOf (Text.unixLines ('-' :: '-' :: (v ++ '\r' :: s))) = wordsOf (Text.unixLines s) := by
  rw [← wordsOf_unixLines_return s]
  refine wordsOf_unixLines_line hv hv' ?_
  rcases unixLines_return s with h | ⟨-, h⟩
  · rw [h]
    exact stops_cons.2 rfl
  · rwa [h]

/-- Writing line ends as line feeds keeps the tokens of atoms that keep to one
line. -/
theorem wordsOf_unixLines {as : List Atom} (hreads : Reads [] as)
    (hone : ∀ a ∈ as, a.isOneLine = true) :
    wordsOf (Text.unixLines (textOf as)) = as.filterMap word? := by
  induction as with
  | nil => exact wordsOf_nil
  | cons a as ih =>
    obtain ⟨ha, hrest⟩ := reads_cons.1 hreads
    obtain ⟨hline, hone⟩ := List.forall_mem_cons.1 hone
    have hwords := ih hrest hone
    cases a with
    | token k v =>
      have hv := oneLine_token ha hline
      rw [textOf_cons, text, unixLines_append fun c hc => (hv c hc).2,
        wordsOf_token (ReadsToken.thinned ha (thinned_unixLines _)), hwords]
      rfl
    | blank c =>
      show wordsOf (Text.unixLines (c :: textOf as)) = _
      by_cases hc : c = '\r'
      · rw [hc, wordsOf_unixLines_return, hwords]
        rfl
      · rw [unixLines_cons hc, wordsOf_blank ha, hwords]
        rfl
    | block b =>
      obtain ⟨hbody, happ⟩ := (ha : IsCommentBody b).unixLines
      show wordsOf (Text.unixLines ('/' :: '*' :: (b ++ textOf as))) = _
      rw [unixLines_cons (by decide), unixLines_cons (by decide), happ,
        wordsOf_of_gap (piece_block hbody _), hwords]
      rfl
    | line b =>
      obtain ⟨hbody, hstops⟩ := ha
      have hstops' : Stops (· != '\n') (Text.unixLines (textOf as)) := by
        rcases newline_of_stops hrest hstops with rfl | ⟨bs, rfl⟩
        · exact stops_nil _
        · rw [textOf_cons, text, List.singleton_append, unixLines_cons (by decide)]
          exact stops_cons.2 rfl
      show wordsOf (Text.unixLines ('-' :: '-' :: (b ++ textOf as))) = as.filterMap word?
      rw [← hwords]
      rcases List.eq_nil_or_concat b with rfl | ⟨v, d, rfl⟩
      · exact wordsOf_unixLines_line (v := []) (by simp) (by simp) hstops'
      · rw [List.concat_eq_append] at hbody hline ⊢
        have hv : ∀ c ∈ v, c ≠ '\r' := by simpa [isOneLine] using hline
        by_cases hd : d = '\r'
        · rw [hd, List.append_assoc, List.singleton_append]
          exact wordsOf_unixLines_lineReturn hv
            (fun c hc => hbody c (List.mem_append_left _ hc)) hstops'
        · refine wordsOf_unixLines_line (fun c hc => ?_) hbody hstops'
          rcases List.mem_append.1 hc with hc | hc
          · exact hv c hc
          · rwa [List.mem_singleton.1 hc]

end Atom
end TableDialects
