import TableDialects.Proofs.Token.Printed

/- A text as a list of atoms: white space character by character, comments and
   tokens. A list of atoms is legible in front of a text (`Atom.Reads`) if each of
   them is read there as what it is. Then the scanner finds its tokens in the text
   of the list (`Atom.Reads.wordsOf`), and every text is the text of a legible list
   (`reads_atoms`). What takes atoms away from such a list only has to
   show that the tokens that stay are still read. -/
namespace TableDialects

open Scan

def wordsOf (s : Text) : List (TokenKind × Text) := (tokenize s).map Token.word

/-- A smallest part of a text: a white-space character, a comment behind two
hyphens, a comment behind slash-star, or a token. -/
inductive Atom where
  | blank (c : Char)
  | line (body : Text)
  | block (body : Text)
  | token (kind : TokenKind) (value : Text)
  deriving DecidableEq

namespace Atom

def text : Atom → Text
  | blank c => [c]
  | line body => '-' :: '-' :: body
  | block body => '/' :: '*' :: body
  | token _ value => value

def word? : Atom → Option (TokenKind × Text)
  | token kind value => some (kind, value)
  | _ => none

theorem eq_token_of_word? {a : Atom} {k : TokenKind} {v : Text} (h : a.word? = some (k, v)) :
    a = .token k v := by
  cases a with
  | token k v =>
    cases h
    rfl
  | _ => cases h

/-- Whether the atom is a comment behind slash-star. -/
def isBlock : Atom → Bool
  | block _ => true
  | _ => false

def textOf (as : List Atom) : Text := as.flatMap text

@[simp] theorem textOf_nil : textOf [] = [] := rfl

@[simp] theorem textOf_cons (a : Atom) (as : List Atom) : textOf (a :: as) = a.text ++ textOf as := rfl

@[simp] theorem textOf_append (as bs : List Atom) : textOf (as ++ bs) = textOf as ++ textOf bs :=
  List.flatMap_append

/-- The atom is read as what it is in front of the text `r`. -/
def ReadsBefore (r : Text) : Atom → Prop
  | blank c => Text.isBlank c = true
  | line body => (∀ c ∈ body, (c != '\n') = true) ∧ Stops (· != '\n') r
  | block body => IsCommentBody body
  | token kind value => ReadsToken kind value r

/-- Every atom of the list is read as what it is, the last ones in front of `r`. -/
def Reads (r : Text) : List Atom → Prop
  | [] => True
  | a :: as => a.ReadsBefore (textOf as ++ r) ∧ Reads r as

theorem reads_append {r : Text} {as bs : List Atom} :
    Reads r (as ++ bs) ↔ Reads (textOf bs ++ r) as ∧ Reads r bs := by
  induction as with
  | nil => exact (and_iff_right trivial).symm
  | cons a as ih => simp [Reads, ih, and_assoc]

theorem reads_cons {a : Atom} {as : List Atom} :
    Reads [] (a :: as) ↔ a.ReadsBefore (textOf as) ∧ Reads [] as := by
  rw [Reads, List.append_nil]

theorem Reads.alone {r : Text} {as : List Atom} (h : Reads r as) : Reads [] as := by
  induction as with
  | nil => trivial
  | cons a as ih =>
    refine reads_cons.2 ⟨?_, ih h.2⟩
    cases a with
    | blank c => exact h.1
    | block b => exact h.1
    | token k v => exact ReadsToken.thinned h.1 (.left (textOf as) r)
    | line b =>
      refine ⟨h.1.1, fun c hc => h.1.2 c ?_⟩
      cases hx : textOf as with
      | nil =>
        rw [hx] at hc
        cases hc
      | cons d x =>
        rw [hx] at hc
        exact hc

theorem Reads.mem {r : Text} {as : List Atom} (h : Reads r as) {a : Atom} (ha : a ∈ as) :
    ∃ r', a.ReadsBefore r' := by
  obtain ⟨xs, ys, rfl⟩ := List.append_of_mem ha
  exact ⟨_, (reads_append.1 h).2.1⟩

theorem ReadsBefore.text_ne_nil {a : Atom} {r : Text} (h : a.ReadsBefore r) : a.text ≠ [] := by
  cases a with
  | token k v => exact ReadsToken.ne_nil h
  | _ => exact List.cons_ne_nil _ _

theorem textOf_eq_nil {as : List Atom} (h : Reads [] as) (hnil : textOf as = []) : as = [] := by
  cases as with
  | nil => rfl
  | cons a as =>
    exact absurd (List.append_eq_nil_iff.1 hnil).1 (reads_cons.1 h).1.text_ne_nil

theorem newline_of_stops {as : List Atom} (hreads : Reads [] as)
    (h : Stops (· != '\n') (textOf as)) : as = [] ∨ ∃ bs, as = blank '\n' :: bs := by
  cases as with
  | nil => exact .inl rfl
  | cons a as =>
    obtain ⟨ha, -⟩ := reads_cons.1 hreads
    cases a with
    | blank c =>
      have hc : c = '\n' := by simpa using stops_cons.1 h
      exact .inr ⟨as, by rw [hc]⟩
    | line b => exact absurd (stops_cons.1 h) (by decide)
    | block b => exact absurd (stops_cons.1 h) (by decide)
    | token k v =>
      have hblank := ReadsToken.stops_blank ha (textOf as)
      obtain ⟨c, w, rfl, -⟩ := (ha : ReadsToken k v _)
      have hc : c = '\n' := by simpa using stops_cons.1 h
      subst hc
      exact absurd (stops_cons.1 hblank) (by decide)

end Atom

/-! ## The tokens of legible atoms -/

theorem words_tokensFrom (pos : Nat) (spaced : Bool) (s : Text) :
    (tokensFrom pos spaced s).map Token.word = wordsOf s := by
  have hflag : ∀ sp sp' : Bool, ∀ t : Text,
      (tokensFrom 0 sp t).map Token.word = (tokensFrom 0 sp' t).map Token.word := by
    intro sp sp' t
    cases t with
    | nil => rw [tokensFrom_nil, tokensFrom_nil]
    | cons c t =>
      rcases hp : piece c t with ⟨kind, v, r⟩
      cases kind with
      | gap => rw [tokensFrom_of_gap hp, tokensFrom_of_gap hp]
      | token k =>
        rw [tokensFrom_of_token hp, tokensFrom_of_token hp]
        rfl
  rw [← map_word_bare, bare_tokensFrom pos 0, map_word_bare, hflag spaced false]
  rfl

theorem wordsOf_nil : wordsOf [] = [] := by
  rw [wordsOf, tokenize, tokensFrom_nil]
  rfl

theorem wordsOf_of_gap {c : Char} {s v r : Text} (h : piece c s = ⟨.gap, v, r⟩) :
    wordsOf (c :: s) = wordsOf r := by
  rw [wordsOf, tokenize, tokensFrom_of_gap h, words_tokensFrom]

theorem wordsOf_blank {c : Char} (hc : Text.isBlank c = true) (r : Text) :
    wordsOf (c :: r) = wordsOf r := by
  have h := congrArg (List.map Token.word) (scan_blank hc false r)
  rwa [scan, scan, map_word_bare, map_word_bare, words_tokensFrom, words_tokensFrom] at h

theorem wordsOf_token {k : TokenKind} {v r : Text} (h : ReadsToken k v r) :
    wordsOf (v ++ r) = (k, v) :: wordsOf r := by
  obtain ⟨c, w, rfl, hp⟩ := h
  rw [wordsOf, List.cons_append, tokenize, tokensFrom_of_token hp, List.map_cons, words_tokensFrom]
  rfl

namespace Atom

theorem ReadsBefore.wordsOf {a : Atom} {r : Text} (h : a.ReadsBefore r) :
    wordsOf (a.text ++ r) = a.word?.toList ++ wordsOf r := by
  cases a with
  | blank c => exact wordsOf_blank h r
  | line body => exact wordsOf_of_gap (piece_line h.1 h.2)
  | block body => exact wordsOf_of_gap (piece_block h r)
  | token kind value => exact wordsOf_token h

theorem Reads.wordsOf {r : Text} {as : List Atom} (h : Reads r as) :
    wordsOf (textOf as ++ r) = as.filterMap word? ++ wordsOf r := by
  induction as with
  | nil => rfl
  | cons a as ih =>
    rw [textOf_cons, List.append_assoc, h.1.wordsOf, ih h.2, List.filterMap_cons]
    cases a.word? <;> rfl

theorem reads_blanks {s r : Text} (h : ∀ c ∈ s, Text.isBlank c = true) :
    Reads r (s.map blank) ∧ textOf (s.map blank) = s := by
  induction s with
  | nil => exact ⟨trivial, rfl⟩
  | cons c s ih =>
    obtain ⟨hreads, htext⟩ := ih fun d hd => h d (List.mem_cons_of_mem c hd)
    exact ⟨⟨h c List.mem_cons_self, hreads⟩, by rw [List.map_cons, textOf_cons, htext]; rfl⟩

end Atom

def Piece.atoms (p : Piece) : List Atom :=
  match p.kind, p.text with
  | .token kind, value => [.token kind value]
  | .gap, '-' :: '-' :: body => [.line body]
  | .gap, '/' :: '*' :: body => [.block body]
  | .gap, blanks => blanks.map .blank

def atoms (s : Text) : List Atom := (pieces s).flatMap Piece.atoms

theorem reads_piece_atoms (c : Char) (s : Text) :
    Atom.Reads (piece c s).rest (piece c s).atoms ∧
      Atom.textOf (piece c s).atoms = (piece c s).text := by
  cases hkind : (piece c s).kind with
  | token k =>
    have hread := readsToken_of_piece hkind
    simp only [Piece.atoms, hkind]
    exact ⟨⟨hread, trivial⟩, List.append_nil _⟩
  | gap =>
    rcases gap_piece_cases hkind with ⟨hb, -⟩ | ⟨b, hb, hline, hstops⟩ | ⟨b, hb, hbody⟩
    · have hatoms : (piece c s).atoms = (piece c s).text.map .blank := by
        unfold Piece.atoms
        rw [hkind]
        split
        · cases ‹PieceKind.gap = _›
        · rename_i htext
          rw [htext] at hb
          exact absurd (hb '-' List.mem_cons_self) (by decide)
        · rename_i htext
          rw [htext] at hb
          exact absurd (hb '/' List.mem_cons_self) (by decide)
        · rfl
      rw [hatoms]
      exact Atom.reads_blanks hb
    · simp only [Piece.atoms, hkind, hb]
      exact ⟨⟨⟨hline, hstops⟩, trivial⟩, List.append_nil _⟩
    · simp only [Piece.atoms, hkind, hb]
      exact ⟨⟨hbody, trivial⟩, List.append_nil _⟩

theorem reads_atoms (s : Text) : Atom.Reads [] (atoms s) ∧ Atom.textOf (atoms s) = s := by
  unfold atoms
  fun_induction pieces s with
  | case1 => exact ⟨trivial, rfl⟩
  | case2 c s ih =>
    obtain ⟨hrest, htext⟩ := ih
    obtain ⟨hpiece, hcut⟩ := reads_piece_atoms c s
    rw [List.flatMap_cons, Atom.reads_append, Atom.textOf_append, hcut, htext, List.append_nil]
    exact ⟨⟨hpiece, hrest⟩, (cuts_piece c s).2⟩

theorem filterMap_word?_atoms (s : Text) : (atoms s).filterMap Atom.word? = wordsOf s := by
  obtain ⟨hreads, htext⟩ := reads_atoms s
  have h := hreads.wordsOf
  rw [List.append_nil, htext, wordsOf_nil, List.append_nil] at h
  exact h.symm

/-! ## Taking gaps out -/

theorem Thinned.absorb {c : Char} (hc : isSeparator c = true) (g : Text) {s s' : Text}
    (h : Thinned s (c :: s')) : Thinned (g ++ s) (c :: s') := by
  cases h with
  | @keep c s s' h =>
    have := Thinned.gap hc (g ++ [c]) h
    rwa [List.append_assoc] at this
  | gap hc' x h =>
    have := Thinned.gap hc (g ++ x) h
    rwa [List.append_assoc] at this

namespace Atom

/-- Whether the atom parts tokens: white space, a parenthesis, a comma or a
semicolon. -/
def parts : Atom → Bool
  | blank _ => true
  | token _ value => value == ['('] || value == [')'] || value == [','] || value == [';']
  | _ => false

/-- Nothing comes next, or what comes next parts tokens. -/
def Clear (as : List Atom) : Prop := ∀ a ∈ as.head?, a.parts = true

/-- The second list is the first one without some of its white space and comments,
where no token comes to stand at another one: what is left out stands next to
something that parts tokens, before it (`free`) or behind it, or at the end. Of a
line comment only a start may be left. -/
inductive Tidied : Bool → List Atom → List Atom → Prop
  | nil {free : Bool} : Tidied free [] []
  | token {free : Bool} {k : TokenKind} {v : Text} {as as' : List Atom}
    (h : Tidied (token k v).parts as as') : Tidied free (token k v :: as) (token k v :: as')
  | blank {free : Bool} {c : Char} {as as' : List Atom} (h : Tidied true as as') :
    Tidied free (blank c :: as) (blank c :: as')
  | line {free : Bool} {b b' : Text} {as as' : List Atom} (hb : b' <+: b)
    (hend : as' = [] ∨ ∃ bs, as' = .blank '\n' :: bs) (h : Tidied false as as') :
    Tidied free (line b :: as) (line b' :: as')
  | drop {free : Bool} {a : Atom} {as as' : List Atom} (ha : a.word? = none)
    (hfree : free = true ∨ Clear as') (h : Tidied free as as') : Tidied free (a :: as) as'

theorem clear_nil : Clear [] := fun _ h => by cases h

theorem text_of_parts {r : Text} {a : Atom} (ha : a.parts = true) (h : a.ReadsBefore r) :
    ∃ c, a.text = [c] ∧ isSeparator c = true := by
  cases a with
  | blank c => exact ⟨c, rfl, isSeparator_of_isBlank h⟩
  | line b => cases ha
  | block b => cases ha
  | token k v =>
    simp only [parts, Bool.or_eq_true, beq_iff_eq, or_assoc] at ha
    rcases ha with rfl | rfl | rfl | rfl <;> exact ⟨_, rfl, by decide⟩

theorem ReadsBefore.of_parts {k : TokenKind} {v r : Text} (hparts : (token k v).parts = true)
    (h : (token k v).ReadsBefore r) (r' : Text) : (token k v).ReadsBefore r' := by
  have hmark : ∀ {c : Char}, (c = '(' ∨ c = ')' ∨ c = ',' ∨ c = ';') → v = [c] →
      ReadsToken k v r' := by
    rintro c hc rfl
    obtain ⟨d, w, hd, hp⟩ := readsToken_mark hc r
    obtain ⟨e, x, he, hq⟩ := (h : ReadsToken k [c] r)
    cases hd
    cases he
    rw [hp] at hq
    cases hq
    exact readsToken_mark hc r'
  simp only [parts, Bool.or_eq_true, beq_iff_eq, or_assoc] at hparts
  rcases hparts with hv | hv | hv | hv
  · exact hmark (.inl rfl) hv
  · exact hmark (.inr (.inl rfl)) hv
  · exact hmark (.inr (.inr (.inl rfl))) hv
  · exact hmark (.inr (.inr (.inr rfl))) hv

/-- Tidied atoms are legible, and their text is a thinned one, at least behind
something that parts tokens. -/
theorem Tidied.reads_and_thinned {free : Bool} {as as' : List Atom} (h : Tidied free as as')
    (hreads : Reads [] as) :
    Reads [] as' ∧ (free = false → Thinned (textOf as) (textOf as')) ∧
      ∀ c g, isSeparator c = true → Thinned (g ++ textOf as) (c :: textOf as') := by
  have hthinned : ∀ {f : Bool} {s s' : Text}, Thinned s s' → (f = false → Thinned s s') ∧
      ∀ c g, isSeparator c = true → Thinned (g ++ s) (c :: s') :=
    fun h => ⟨fun _ => h, fun c g hc => .gap hc g h⟩
  -- A token is still read before thinned text, and one that parts tokens before any.
  induction h with
  | nil => exact ⟨trivial, hthinned (.stop [])⟩
  | @token free k v as as' h ih =>
    obtain ⟨hv, hrest⟩ := reads_cons.1 hreads
    obtain ⟨hrest', hfalse, hsep⟩ := ih hrest
    cases hparts : (Atom.token k v).parts with
    | false =>
      have hthin := hfalse hparts
      exact ⟨reads_cons.2 ⟨ReadsToken.thinned hv hthin, hrest'⟩, hthinned (.append v hthin)⟩
    | true =>
      obtain ⟨c, hc, hc'⟩ := text_of_parts hparts hv
      refine ⟨reads_cons.2 ⟨hv.of_parts hparts _, hrest'⟩, hthinned ?_⟩
      rw [textOf_cons, textOf_cons, hc]
      exact hsep c [c] hc'
  | @blank free c as as' h ih =>
    obtain ⟨hc, hrest⟩ := reads_cons.1 hreads
    obtain ⟨hrest', -, hsep⟩ := ih hrest
    exact ⟨reads_cons.2 ⟨hc, hrest'⟩, hthinned (hsep c [c] (isSeparator_of_isBlank hc))⟩
  | @line free b b' as as' hb hend h ih =>
    obtain ⟨⟨hbody, -⟩, hrest⟩ := reads_cons.1 hreads
    obtain ⟨hrest', hfalse, -⟩ := ih hrest
    have hstops : Stops (· != '\n') (textOf as') := by
      rcases hend with rfl | ⟨bs, rfl⟩
      · exact stops_nil _
      · exact stops_cons.2 rfl
    refine ⟨reads_cons.2 ⟨⟨fun c hc => hbody c (hb.subset hc), hstops⟩, hrest'⟩, hthinned ?_⟩
    obtain ⟨x, rfl⟩ := hb
    have hbehind : Thinned (x ++ textOf as) (textOf as') := by
      rcases hend with rfl | ⟨bs, rfl⟩
      · exact .stop _
      · exact .absorb (by decide) x (hfalse rfl)
    simpa [text] using Thinned.append ('-' :: '-' :: b') hbehind
  | @drop free a as as' ha hfree h ih =>
    obtain ⟨-, hrest⟩ := reads_cons.1 hreads
    obtain ⟨hrest', hfalse, hsep⟩ := ih hrest
    refine ⟨hrest', ?_, fun c g hc => ?_⟩
    · -- Nothing before the atom parts tokens, so what comes next has to.
      rintro rfl
      have hclear := hfree.resolve_left Bool.false_ne_true
      cases as' with
      | nil => exact .stop _
      | cons a' as' =>
        obtain ⟨c, hc, hc'⟩ := text_of_parts (hclear a' rfl) (reads_cons.1 hrest').1
        have hthin := hfalse rfl
        rw [textOf_cons a' as', hc] at hthin ⊢
        exact .absorb hc' a.text hthin
    · have := hsep c (g ++ a.text) hc
      rwa [List.append_assoc] at this

theorem Tidied.reads {free : Bool} {as as' : List Atom} (h : Tidied free as as')
    (hreads : Reads [] as) : Reads [] as' :=
  (h.reads_and_thinned hreads).1

theorem Tidied.words {free : Bool} {as as' : List Atom} (h : Tidied free as as') :
    as'.filterMap word? = as.filterMap word? := by
  induction h with
  | nil => rfl
  | token h ih => exact congrArg (List.cons _) ih
  | blank h ih => exact ih
  | line hb hend h ih => exact ih
  | drop ha hfree h ih => rw [List.filterMap_cons_none ha, ih]

/-- What is left has the properties of the list that starts of line comments keep,
and there is no block comment in it. -/
theorem Tidied.forall_mem {P : Atom → Prop} (hline : ∀ {b b' : Text}, b' <+: b → P (.line b) → P (.line b'))
    {free : Bool} {as as' : List Atom} (h : Tidied free as as') (has : ∀ a ∈ as, P a) :
    ∀ a ∈ as', a.isBlock = false ∧ P a := by
  induction h with
  | nil => exact List.forall_mem_nil _
  | token h ih =>
    obtain ⟨ha, has⟩ := List.forall_mem_cons.1 has
    exact List.forall_mem_cons.2 ⟨⟨rfl, ha⟩, ih has⟩
  | blank h ih =>
    obtain ⟨ha, has⟩ := List.forall_mem_cons.1 has
    exact List.forall_mem_cons.2 ⟨⟨rfl, ha⟩, ih has⟩
  | line hb hend h ih =>
    obtain ⟨ha, has⟩ := List.forall_mem_cons.1 has
    exact List.forall_mem_cons.2 ⟨⟨rfl, hline hb ha⟩, ih has⟩
  | drop ha hfree h ih => exact ih (List.forall_mem_cons.1 has).2

theorem Tidied.isBlock {free : Bool} {as as' : List Atom} (h : Tidied free as as') :
    ∀ a ∈ as', a.isBlock = false :=
  fun a ha => (h.forall_mem (P := fun _ => True) (fun _ => id) (fun _ _ => trivial) a ha).1

theorem Tidied.token_mem {free : Bool} {as as' : List Atom} (h : Tidied free as as')
    {P : Text → Prop} (has : ∀ k v, .token k v ∈ as → P v) : ∀ k v, .token k v ∈ as' → P v := by
  intro k v hv
  have hmem := h.forall_mem (P := fun a => ∀ k v, a = .token k v → P v)
    (fun _ _ _ _ heq => by cases heq)
    (fun a ha k v heq => has k v (heq ▸ ha)) _ hv
  exact hmem.2 k v rfl

theorem Tidied.clear {free : Bool} {as as' : List Atom} (h : Tidied free as as')
    (has : Clear as) : free = true ∨ Clear as' := by
  cases h with
  | nil => exact .inr has
  | token h => exact .inr has
  | blank h => exact .inr has
  | line hb hend h => cases has _ rfl
  | drop ha hfree h => exact hfree

theorem Tidied.trans {f free : Bool} {as bs cs : List Atom} (h : Tidied f as bs)
    (h' : Tidied free bs cs) (hf : f = true → free = true ∨ Clear cs) : Tidied free as cs := by
  induction h generalizing free cs with
  | nil => exact h'
  | token h ih =>
    cases h' with
    | token h' => exact .token (ih h' .inl)
    | drop ha hfree h' => cases ha
  | blank h ih =>
    cases h' with
    | blank h' => exact .blank (ih h' .inl)
    | drop ha hfree h' => exact .drop ha hfree (ih h' fun _ => hfree)
  | line hb hend h ih =>
    cases h' with
    | line hb' hend' h' => exact .line (hb'.trans hb) hend' (ih h' .inl)
    | drop ha hfree h' => exact .drop rfl hfree (ih h' fun _ => hfree)
  | drop ha hfree h ih =>
    refine .drop ha ?_ (ih h' hf)
    rcases hfree with hfree | hclear
    · exact hf hfree
    · exact h'.clear hclear

theorem Tidied.mono {free : Bool} {as as' : List Atom} (h : Tidied false as as') :
    Tidied free as as' := by
  generalize hf : false = f at h
  induction h with
  | nil => exact .nil
  | token h ih => exact .token h
  | blank h ih => exact .blank h
  | line hb hend h ih => exact .line hb hend h
  | drop ha hfree h ih =>
    subst hf
    exact .drop ha (.inr (hfree.resolve_left Bool.false_ne_true)) (ih rfl)

theorem Tidied.of_nil {f free : Bool} {as : List Atom} (h : Tidied f as []) : Tidied free as [] := by
  generalize hnil : ([] : List Atom) = as' at h
  induction h with
  | nil => exact .nil
  | drop ha hfree h ih =>
    subst hnil
    exact .drop ha (.inr clear_nil) (ih rfl)
  | _ => cases hnil

theorem Tidied.skip {f : Bool} {as bs bs' : List Atom} (h : Tidied f as [])
    (hb : Tidied true bs bs') : Tidied true (as ++ bs) bs' := by
  generalize hnil : ([] : List Atom) = as' at h
  induction h with
  | nil => exact hb
  | drop ha hfree h ih => exact .drop ha (.inl rfl) (ih hnil)
  | _ => cases hnil

theorem Tidied.append {free : Bool} {as as' bs bs' : List Atom} (h : Tidied free as as')
    (hend : bs' = [] ∨ ∃ cs, bs' = .blank '\n' :: cs) (hb : ∀ f, Tidied f bs bs') :
    Tidied free (as ++ bs) (as' ++ bs') := by
  induction h with
  | nil => exact hb _
  | token h ih => exact .token ih
  | blank h ih => exact .blank ih
  | line hpre hline h ih =>
    refine .line hpre ?_ ih
    rcases hline with rfl | ⟨cs, rfl⟩
    · exact hend
    · exact .inr ⟨cs ++ bs', rfl⟩
  | @drop free a as as' ha hfree h ih =>
    refine .drop ha (hfree.imp_right fun hclear => ?_) ih
    cases as' with
    | nil =>
      rcases hend with rfl | ⟨cs, rfl⟩
      · exact clear_nil
      · exact fun a ha => by cases ha; rfl
    | cons a as' => exact hclear

end Atom
end TableDialects
