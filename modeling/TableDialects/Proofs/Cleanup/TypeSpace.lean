import TableDialects.Proofs.Cleanup.Places
import TableDialects.Proofs.Cleanup.Width
import TableDialects.Proofs.Types.Spelling

/- White space between a type and its parameters. The rule that takes it out stays out
   of quoted text, and what it changes is white space alone: before an opening
   parenthesis it is dropped, and between the words of a type it becomes a single space
   (`Tightened`). So the tokens of a text without comments stay as they are
   (`Atom.exists_tight`). With a comment they need not: a quote in it opens quoted text
   for the rule, but not for the scanner. -/
namespace TableDialects

open Scan

/-- The second text is the first one with white space outside quoted text dropped before
opening parentheses, or made single spaces. -/
inductive Tightened : Text → Text → Prop
  | nil : Tightened [] []
  | quoted {s part rest out : Text} (hq : Text.quoted? s = some (part, rest)) (h : Tightened rest out) :
    Tightened s (part ++ out)
  | copied {c : Char} {s out : Text} (hq : Text.quoted? (c :: s) = none) (h : Tightened s out) :
    Tightened (c :: s) (c :: out)
  | dropped {c d : Char} {s out : Text} (hc : Text.isBlank c = true) (hd : d = ' ' ∨ d = '(')
    (h : Tightened s (d :: out)) : Tightened (c :: s) (d :: out)
  | spaced {c : Char} {s out : Text} (hc : Text.isBlank c = true) (h : Tightened s out) :
    Tightened (c :: s) (' ' :: out)

namespace Tightened

/-! ## What the rule makes of a text -/

theorem plain {v r out : Text} (hv : ∀ c ∈ v, Text.closerOf c = none) (h : Tightened r out) :
    Tightened (v ++ r) (v ++ out) := by
  induction v with
  | nil => exact h
  | cons c v ih =>
    obtain ⟨hc, hv⟩ := List.forall_mem_cons.1 hv
    exact .copied (Rule.quoted?_eq_none hc _) (ih hv)

theorem gap_before {g r out : Text} {d : Char} (hg : IsGap g) (hd : d = ' ' ∨ d = '(')
    (h : Tightened r (d :: out)) : Tightened (g ++ r) (d :: out) := by
  induction g with
  | nil => exact h
  | cons c g ih =>
    obtain ⟨hc, hg⟩ := List.forall_mem_cons.1 hg
    exact .dropped hc hd (ih hg)

theorem gap {g r out : Text} (hg : IsGap g) (hne : g ≠ []) (h : Tightened r out) :
    Tightened (g ++ r) (' ' :: out) := by
  rcases List.eq_nil_or_concat g with rfl | ⟨x, c, rfl⟩
  · exact absurd rfl hne
  · rw [List.concat_eq_append] at hg ⊢
    obtain ⟨hx, hc⟩ := List.forall_mem_append.1 hg
    rw [List.append_assoc]
    exact gap_before hx (.inl rfl) (.spaced (hc c List.mem_cons_self) h)

end Tightened

namespace Rule

theorem blanks?_eq_some {s r : Text} (h : blanks? s = some r) : ∃ g, g ≠ [] ∧ IsGap g ∧ s = g ++ r := by
  cases s with
  | nil => cases h
  | cons c s =>
    rw [blanks?] at h
    split at h
    · rename_i hc
      refine ⟨c :: s.takeWhile Text.isBlank, List.cons_ne_nil _ _,
        List.forall_mem_cons.2 ⟨hc, fun d hd => List.mem_takeWhile_imp hd⟩, ?_⟩
      rw [← Option.some.inj h, List.cons_append, List.takeWhile_append_dropWhile]
    · cases h

theorem char?_eq_some {c : Char} {s r : Text} (h : char? c s = some r) : s = c :: r := by
  cases s with
  | nil => cases h
  | cons d s =>
    rw [char?] at h
    split at h
    · rename_i hc
      rw [hc, Option.some.inj h]
    · cases h

def IsLetters (w : Text) : Prop := w ≠ [] ∧ ∀ l ∈ w, Text.isAsciiLetter l = true

instance (w : Text) : Decidable (IsLetters w) := inferInstanceAs (Decidable (_ ∧ _))

theorem isLetters_parameterTypes : ∀ words ∈ Cleanup.parameterTypes, ∀ w ∈ words, IsLetters w.toList := by decide +kernel

/-- What a word of letters matches has neither white space nor quotes. -/
theorem afterWord?_letters {w s r : Text} (hw : IsLetters w) (h : Text.afterWord? w s = some r) :
    ∃ m, s = m ++ r ∧ m ≠ [] ∧ ∀ c ∈ m, Text.isBlank c = false ∧ Text.closerOf c = none := by
  obtain ⟨m, hs, hlen, hm⟩ := afterWord?_split h
  have hquote : ∀ l, Text.isAsciiLetter l = true → ∀ q ∈ ['\'', '"', '`', '['], Text.sameLetter l q = false := by
    intro l hl q hq
    have hfacts : ∀ q ∈ ['\'', '"', '`', '['], Text.upperChar q = [q] ∧ Text.isAsciiLetter q = false ∧
        q ≠ Char.ofNat 0x212A ∧ q ≠ Char.ofNat 0x130 := by decide
    obtain ⟨hupper, hletter, hkelvin, hdotted⟩ := hfacts q hq
    exact Text.sameLetter_of_upperChar hl hupper hletter hkelvin hdotted
  refine ⟨m, hs, ?_, fun c hc => ?_⟩
  · rintro rfl
    exact hw.1 (List.length_eq_zero_iff.1 hlen.symm)
  · obtain ⟨l, hl, hsame⟩ := hm c hc
    have hl := hw.2 l hl
    constructor
    · cases hblank : Text.isBlank c with
      | false => rfl
      | true =>
        rw [Text.sameLetter_of_isBlank hl hblank] at hsame
        cases hsame
    · have hne : ∀ q ∈ ['\'', '"', '`', '['], c ≠ q := by
        rintro q hq rfl
        rw [hquote l hl c hq] at hsame
        cases hsame
      simp only [List.forall_mem_cons] at hne
      simp [Text.closerOf, hne]

/-- White space between the words of a type becomes a single space. -/
theorem tightened_phrase {words : List String} (hwords : ∀ w ∈ words, IsLetters w.toList) {s r : Text}
    (h : phrase? words s = some r) : ∃ m, s = m ++ r ∧ Stops Text.isBlank m ∧
      ∀ {out : Text}, Tightened r out → Tightened (m ++ r) (Text.collapse m ++ out) := by
  have hword : ∀ {m r out : Text}, (∀ c ∈ m, Text.isBlank c = false ∧ Text.closerOf c = none) →
      Tightened r out → Tightened (m ++ r) (Text.collapse m ++ out) := by
    intro m r out hm hr
    rw [collapse_eq_self fun c hc => (hm c hc).1]
    exact .plain (fun c hc => (hm c hc).2) hr
  have hstarts : ∀ {m : Text}, (∀ c ∈ m, Text.isBlank c = false ∧ Text.closerOf c = none) → Stops Text.isBlank m :=
    fun hm c hc => (hm c (List.mem_of_mem_head? hc)).1
  fun_induction phrase? words s with
  | case1 s =>
    cases h
    exact ⟨[], rfl, stops_nil _, fun hr => hr⟩
  | case2 s w =>
    obtain ⟨m, hs, -, hm⟩ := afterWord?_letters (hwords _ List.mem_cons_self) h
    exact ⟨m, hs, hstarts hm, hword hm⟩
  | case3 s w words hmore rest hrest ih =>
    obtain ⟨hw, hwords⟩ := List.forall_mem_cons.1 hwords
    obtain ⟨r₁, hafter, hblanks⟩ := Option.bind_eq_some_iff.1 hrest
    obtain ⟨m, hs, hne, hm⟩ := afterWord?_letters hw hafter
    obtain ⟨g, hgne, hg, hr₁⟩ := blanks?_eq_some hblanks
    obtain ⟨m', hrest', hm', htight⟩ := ih hwords h
    subst hs hr₁ hrest'
    refine ⟨m ++ (g ++ m'), by simp only [List.append_assoc], ?_, fun {out} hr => ?_⟩
    · obtain ⟨c, m, rfl⟩ := List.exists_cons_of_ne_nil hne
      exact stops_cons.2 (hm c List.mem_cons_self).1
    · have hends : ∀ c ∈ m.getLast?, Text.isBlank c = false := fun c hc => (hm c (List.mem_of_getLast? hc)).1
      rw [collapse_append hne hends, collapse_append_starts g hm', collapse_gap hg hgne]
      have hlast := hword hm (.gap hg hgne (htight hr))
      simpa only [List.append_assoc, List.cons_append, List.nil_append] using hlast
  | case4 => cases h

theorem typeBeforeParams?_eq_some {s type rest : Text} (h : Cleanup.typeBeforeParams? s = some (type, rest)) :
    ∃ words ∈ Cleanup.parameterTypes, ∃ r, phrase? words s = some r ∧ type = s.take (s.length - r.length) ∧
      (blanks? r).bind (char? '(') = some rest := by
  unfold Cleanup.typeBeforeParams? at h
  obtain ⟨words, hwords, hfound⟩ := List.exists_of_findSome?_eq_some h
  split at hfound
  · cases hfound
  · rename_i r hr
    split at hfound
    · rename_i hopen
      cases hfound
      exact ⟨words, hwords, r, hr, rfl, hopen⟩
    · cases hfound

theorem tightened_spaceBeforeParams {b : Option Char} {s new rest out : Text}
    (h : Cleanup.spaceBeforeParams b s = some (new, rest)) (hrest : Tightened rest out) :
    Tightened s (new ++ out) := by
  unfold Cleanup.spaceBeforeParams at h
  split at h
  · split at h
    · rename_i type rest' htype
      cases h
      obtain ⟨words, hwords, r, hphrase, rfl, hopen⟩ := typeBeforeParams?_eq_some htype
      obtain ⟨r', hblanks, hchar⟩ := Option.bind_eq_some_iff.1 hopen
      obtain ⟨g, -, hg, rfl⟩ := blanks?_eq_some hblanks
      cases char?_eq_some hchar
      obtain ⟨m, rfl, -, htight⟩ := tightened_phrase (isLetters_parameterTypes words hwords) hphrase
      have hm : (m ++ (g ++ '(' :: rest)).take ((m ++ (g ++ '(' :: rest)).length - (g ++ '(' :: rest).length) = m := by
        rw [List.length_append, Nat.add_sub_cancel, List.take_left]
      rw [hm, List.append_assoc]
      exact htight (.gap_before hg (.inr rfl) (.copied (quoted?_eq_none (by decide) _) hrest))
    · cases h
  · cases h

end Rule

theorem tightened_apply (b : Option Char) (s : Text) : Tightened s (Cleanup.spaceBeforeParams.apply true b s) := by
  fun_induction Rule.apply Cleanup.spaceBeforeParams true b s with
  | case1 => exact .nil
  | case2 b c s part rest hq ih => exact .quoted (by simpa using hq) ih
  | case3 b c s hq new rest hrule hlt ih => exact Rule.tightened_spaceBeforeParams hrule ih
  | case4 b c s hq new rest hrule hlt ih => exact .copied (by simpa using hq) ih
  | case5 b c s hq hrule ih => exact .copied (by simpa using hq) ih

/-! ## The tokens stay -/

namespace Tightened

theorem thinned {s out : Text} (h : Tightened s out) : Thinned s out := by
  induction h with
  | nil => exact .stop []
  | quoted hq h ih =>
    rw [← Text.quoted?_append hq]
    exact .append _ ih
  | copied hq h ih => exact .keep _ ih
  | @dropped c d s out hc hd h ih => exact .absorb (by rcases hd with rfl | rfl <;> decide) [c] ih
  | @spaced c s out hc h ih => exact .gap (by decide) [c] ih

theorem of_inert {v r out : Text} (hv : Inert r v) (h : Tightened (v ++ r) out) :
    ∃ out', out = v ++ out' ∧ Tightened r out' := by
  induction v generalizing out with
  | nil => exact ⟨out, rfl, h⟩
  | cons c v ih =>
    obtain ⟨⟨hq, hblank, -⟩, hv⟩ := hv
    rw [List.cons_append] at h
    cases h with
    | quoted hq' h =>
      rw [hq] at hq'
      cases hq'
    | copied hq' h =>
      obtain ⟨out', rfl, hout⟩ := ih hv h
      exact ⟨out', rfl, hout⟩
    | dropped hc hd h =>
      rw [hc] at hblank
      cases hblank
    | spaced hc h =>
      rw [hc] at hblank
      cases hblank

theorem of_quoted {s part rest out : Text} (hq : Text.quoted? s = some (part, rest)) (h : Tightened s out) :
    ∃ out', out = part ++ out' ∧ Tightened rest out' := by
  have hblank : ∀ {c : Char} {t : Text}, s = c :: t → Text.isBlank c = true → False := by
    rintro c t rfl hc
    rw [Rule.quoted?_eq_none (Rule.closerOf_of_isBlank hc)] at hq
    cases hq
  cases h with
  | nil => cases hq
  | quoted hq' h =>
    rw [hq] at hq'
    cases hq'
    exact ⟨_, rfl, h⟩
  | copied hq' h =>
    rw [hq] at hq'
    cases hq'
  | dropped hc hd h => exact (hblank rfl hc).elim
  | spaced hc h => exact (hblank rfl hc).elim

theorem of_token {k : TokenKind} {v r out : Text} (hv : ReadsToken k v r) (h : Tightened (v ++ r) out) :
    ∃ out', out = v ++ out' ∧ Tightened r out' := by
  obtain ⟨lead, part, rfl, hlead, hpart⟩ := hv.inertToQuotes
  rw [List.append_assoc] at h
  obtain ⟨out', rfl, hout⟩ := of_inert hlead h
  rcases hpart with rfl | ⟨-, hq⟩
  · exact ⟨out', by simp, hout⟩
  · obtain ⟨out'', rfl, hrest⟩ := of_quoted hq hout
    exact ⟨out'', by simp, hrest⟩

end Tightened

namespace Atom

def isComment : Atom → Bool
  | line _ => true
  | block _ => true
  | _ => false

/-- What is left of atoms without comments are the same tokens. -/
theorem exists_tight {as : List Atom} (hreads : Reads [] as) (hfree : ∀ a ∈ as, a.isComment = false)
    {out : Text} (h : Tightened (textOf as) out) :
    ∃ as', textOf as' = out ∧ Reads [] as' ∧ (∀ a ∈ as', a.isComment = false) ∧
      as'.filterMap word? = as.filterMap word? := by
  induction as generalizing out with
  | nil =>
    cases h with
    | nil => exact ⟨[], rfl, trivial, hfree, rfl⟩
    | quoted hq h => cases hq
  | cons a as ih =>
    obtain ⟨ha, hrest⟩ := reads_cons.1 hreads
    obtain ⟨hnot, hfreeRest⟩ := List.forall_mem_cons.1 hfree
    -- One atom in the place of the first, before what is left of the others.
    have hkeep : ∀ (a' : Atom) {out' : Text}, a'.isComment = false → a'.word? = a.word? →
        (∀ {r}, Thinned (textOf as) r → a'.ReadsBefore r) → Tightened (textOf as) out' →
        ∃ as', textOf as' = a'.text ++ out' ∧ Reads [] as' ∧ (∀ a ∈ as', a.isComment = false) ∧
          as'.filterMap word? = (a :: as).filterMap word? := by
      intro a' out' hnot hword hreads h
      obtain ⟨as', htext, hreads', hfree', hwords⟩ := ih hrest hfreeRest h
      refine ⟨a' :: as', by rw [textOf_cons, htext], reads_cons.2 ⟨hreads ?_, hreads'⟩,
        List.forall_mem_cons.2 ⟨hnot, hfree'⟩, ?_⟩
      · rw [htext]
        exact h.thinned
      · rw [List.filterMap_cons, List.filterMap_cons, hword, hwords]
    cases a with
    | line b => cases hnot
    | block b => cases hnot
    | token k v =>
      obtain ⟨out', rfl, hout⟩ := Tightened.of_token ha h
      exact hkeep (.token k v) rfl rfl (fun ht => ReadsToken.thinned ha ht) hout
    | blank c =>
      change Tightened (c :: textOf as) out at h
      cases h with
      | quoted hq h =>
        rw [Rule.quoted?_eq_none (Rule.closerOf_of_isBlank ha)] at hq
        cases hq
      | copied hq h => exact hkeep (.blank c) rfl rfl (fun _ => ha) h
      -- A blank that is dropped leaves no atom, and it was no token.
      | dropped hc hd h => exact ih hrest hfreeRest h
      | spaced hc h => exact hkeep (.blank ' ') rfl rfl (fun _ => (by decide : Text.isBlank ' ' = true)) h

end Atom

end TableDialects
