import TableDialects.Proofs.Token.Rules
import TableDialects.Token.Groups

/- Where the tokens of a text stand. The scanner is described by a relation,
   `Scanned`: a text is a gap, a token, a gap, a token and so on, each token read
   in front of the text that follows it. What is known of single pieces then
   carries over to whole texts by induction on that relation:

     every token stands where it says, and only white space and complete
     comments stand between tokens (`Laid`);
     the tokens written out with single spaces are read as the same tokens;
     a text cut off, or begun, at the edge of a token has the tokens that are
     left of the whole. -/
namespace TableDialects

open Scan

/-- What follows slash-star in a comment: star-slash at the end, and nowhere
before it. -/
def IsCommentBody (s : Text) : Prop :=
  ∃ b, s = b ++ ['*', '/'] ∧ ¬ ['*', '/'] <:+: b ++ ['*']

/-- White space and comments in front of the text `r`: whole runs of white
space, comments from two hyphens to the end of the line, and comments between
slash-star and the first star-slash. -/
inductive Gap (r : Text) : Text → Prop
  | nil : Gap r []
  | blanks {b g : Text} (hne : b ≠ []) (hb : ∀ c ∈ b, Text.isBlank c = true)
    (hs : Stops Text.isBlank (g ++ r)) (h : Gap r g) : Gap r (b ++ g)
  | line {b g : Text} (hb : ∀ c ∈ b, (c != '\n') = true) (hs : Stops (· != '\n') (g ++ r))
    (h : Gap r g) : Gap r ('-' :: '-' :: (b ++ g))
  | block {b g : Text} (hb : IsCommentBody b) (h : Gap r g) : Gap r ('/' :: '*' :: (b ++ g))

/-- The tokens of a text that stands at place `pos`, behind a gap if `spaced`
says so. -/
inductive Scanned : Nat → Bool → Text → List Token → Prop
  | done {pos : Nat} {spaced : Bool} {g : Text} (hg : Gap [] g) : Scanned pos spaced g []
  | token {pos : Nat} {spaced : Bool} {g v r : Text} {k : TokenKind} {ts : List Token}
    (hg : Gap (v ++ r) g) (hv : ReadsToken k v r)
    (h : Scanned (pos + g.length + v.length) false r ts) :
    Scanned pos spaced (g ++ (v ++ r)) (⟨k, v, pos + g.length, spaced || !g.isEmpty⟩ :: ts)

/-! ## Gaps are read as gaps -/

theorem IsCommentBody.closeComment? {b : Text} (h : IsCommentBody b) (r : Text) :
    closeComment? (b ++ r) = some (b, r) := by
  obtain ⟨b, rfl, hb⟩ := h
  induction b with
  | nil => simp [Scan.closeComment?]
  | cons c b ih =>
    have hrest := ih (fun hin => hb (hin.trans (List.infix_cons (List.infix_refl _))))
    cases b with
    | nil =>
      simp only [List.nil_append, List.cons_append] at hrest ⊢
      simp [Scan.closeComment?]
    | cons d b =>
      have hcd : ¬ (c == '*' && d == '/') = true := by
        simp only [Bool.and_eq_true, beq_iff_eq]
        rintro ⟨rfl, rfl⟩
        exact hb ⟨[], b ++ ['*'], rfl⟩
      simp only [List.cons_append] at hrest ⊢
      rw [Scan.closeComment?, if_neg hcd, hrest]

theorem isCommentBody_of_closeComment? {s body rest : Text}
    (h : closeComment? s = some (body, rest)) : IsCommentBody body := by
  fun_induction Scan.closeComment? s generalizing body rest with
  | case1 => cases h
  | case2 => cases h
  | case3 c d s hcd =>
    cases h
    simp only [Bool.and_eq_true, beq_iff_eq] at hcd
    obtain ⟨rfl, rfl⟩ := hcd
    refine ⟨[], rfl, ?_⟩
    decide
  | case4 c d s hcd body' rest' hs ih =>
    cases h
    obtain ⟨b, hbody, hb⟩ := ih hs
    refine ⟨c :: b, by rw [hbody]; rfl, ?_⟩
    rw [List.cons_append, List.infix_cons_iff]
    rintro (hpre | hin)
    · -- A star-slash at the very start is the first one of the text.
      have happ := closeComment?_append hs
      rw [hbody] at happ
      cases b with
      | nil =>
        rw [List.nil_append] at hpre
        exact absurd (List.cons_prefix_cons.1 (List.cons_prefix_cons.1 hpre).2).1 (by decide)
      | cons e b =>
        rw [List.cons_append] at hpre
        obtain ⟨rfl, htail⟩ := List.cons_prefix_cons.1 hpre
        obtain ⟨rfl, -⟩ := List.cons_prefix_cons.1 htail
        cases happ
        exact hcd rfl
    · exact hb hin
  | case5 => cases h

theorem piece_blanks {c : Char} {b r : Text} (hc : Text.isBlank c = true)
    (hb : ∀ d ∈ b, Text.isBlank d = true) (hr : Stops Text.isBlank r) :
    piece c (b ++ r) = ⟨.gap, c :: b, r⟩ := by
  unfold piece space? run
  simp only [hc, if_true, List.takeWhile_cons, List.dropWhile_cons]
  rw [hr.takeWhile_append hb, hr.dropWhile_append hb]

theorem piece_comment {c : Char} {s : Text} {p : Piece} (hc : Text.isBlank c = false)
    (h : comment? (c :: s) = some p) : piece c s = p := by
  unfold piece
  rw [space?_eq_none.2 hc, h]

theorem piece_line {b r : Text} (hb : ∀ c ∈ b, (c != '\n') = true) (hr : Stops (· != '\n') r) :
    piece '-' ('-' :: (b ++ r)) = ⟨.gap, '-' :: '-' :: b, r⟩ := by
  apply piece_comment (by decide)
  rw [comment?_cons, if_pos ⟨rfl, rfl⟩, hr.takeWhile_append hb, hr.dropWhile_append hb]

theorem piece_block {b : Text} (hb : IsCommentBody b) (r : Text) :
    piece '/' ('*' :: (b ++ r)) = ⟨.gap, '/' :: '*' :: b, r⟩ := by
  apply piece_comment (by decide)
  rw [comment?_cons, if_neg (by decide), if_pos ⟨rfl, rfl⟩, hb.closeComment?]
  rfl

/-- A text that is not empty and read as a gap starts with a gap piece. -/
theorem Gap.piece_kind {r g : Text} {c : Char} (h : Gap r g) (hg : ∃ t, g = c :: t) :
    ∃ s, g ++ r = c :: s ∧ (piece c s).kind = .gap := by
  obtain ⟨t, ht⟩ := hg
  cases h with
  | nil => cases ht
  | @blanks b g hne hb hs h =>
    cases b with
    | nil => exact absurd rfl hne
    | cons d b =>
      cases ht
      refine ⟨b ++ (g ++ r), by simp, ?_⟩
      rw [piece_blanks (hb c List.mem_cons_self) (fun d hd => hb d (List.mem_cons_of_mem c hd)) hs]
  | @line b g hb hs h =>
    cases ht
    refine ⟨'-' :: (b ++ (g ++ r)), by simp, ?_⟩
    rw [piece_line hb hs]
  | @block b g hb h =>
    cases ht
    refine ⟨'*' :: (b ++ (g ++ r)), by simp, ?_⟩
    rw [piece_block hb]

theorem mark_kind (c : Char) (s : Text) : ∃ k, (mark c s).kind = .token k := by
  unfold mark
  split
  · exact ⟨_, rfl⟩
  · split
    · exact ⟨_, rfl⟩
    · split <;> exact ⟨_, rfl⟩

theorem piece_kind_of_comment?_eq_none {c : Char} {s : Text} (hc : Text.isBlank c = false)
    (h : comment? (c :: s) = none) : ∃ k, (piece c s).kind = .token k := by
  unfold piece
  rw [space?_eq_none.2 hc, h]
  dsimp only
  split
  · exact ⟨_, string?_kind ‹_›⟩
  split
  · exact ⟨_, ident?_kind ‹_›⟩
  split
  · obtain ⟨v, r, -, -, rfl⟩ := number?_eq_some ‹_›
    exact ⟨_, rfl⟩
  split
  · obtain ⟨d, v, r, -, -, -, -, rfl⟩ := word?_eq_some ‹_›
    exact ⟨_, rfl⟩
  · exact mark_kind c s

theorem gap_piece_cases {c : Char} {s : Text} (h : (piece c s).kind = .gap) :
    ((∀ d ∈ (piece c s).text, Text.isBlank d = true) ∧ Stops Text.isBlank (piece c s).rest) ∨
      (∃ b, (piece c s).text = '-' :: '-' :: b ∧ (∀ d ∈ b, (d != '\n') = true) ∧
        Stops (· != '\n') (piece c s).rest) ∨
      ∃ b, (piece c s).text = '/' :: '*' :: b ∧ IsCommentBody b := by
  by_cases hc : Text.isBlank c = true
  · have hsplit := List.takeWhile_append_dropWhile (p := Text.isBlank) (l := s)
    have hp : piece c s = ⟨.gap, c :: s.takeWhile Text.isBlank, s.dropWhile Text.isBlank⟩ := by
      conv => lhs; rw [← hsplit]
      exact piece_blanks hc (fun d => List.mem_takeWhile_imp) (stops_dropWhile _ _)
    rw [hp]
    exact .inl ⟨List.forall_mem_cons.2 ⟨hc, fun d => List.mem_takeWhile_imp⟩, stops_dropWhile _ _⟩
  · rw [Bool.not_eq_true] at hc
    cases hcomment : comment? (c :: s) with
    | none =>
      obtain ⟨k, hk⟩ := piece_kind_of_comment?_eq_none hc hcomment
      rw [hk] at h
      cases h
    | some p =>
      rw [piece_comment hc hcomment]
      cases s with
      | nil => rw [comment?_single] at hcomment; cases hcomment
      | cons d s =>
        rw [comment?_cons] at hcomment
        split at hcomment
        · cases hcomment
          exact .inr (.inl ⟨_, rfl, fun d => List.mem_takeWhile_imp, stops_dropWhile _ s⟩)
        · split at hcomment
          · cases hclose : closeComment? s with
            | none => rw [hclose] at hcomment; cases hcomment
            | some q =>
              rw [hclose] at hcomment
              cases hcomment
              exact .inr (.inr ⟨_, rfl, isCommentBody_of_closeComment? hclose⟩)
          · cases hcomment

theorem gap_of_piece {c : Char} {s g r : Text} (h : (piece c s).kind = .gap)
    (hs : (piece c s).rest = g ++ r) (hg : Gap r g) : Gap r ((piece c s).text ++ g) := by
  rcases gap_piece_cases h with ⟨hb, hstops⟩ | ⟨b, hb, hline, hstops⟩ | ⟨b, hb, hbody⟩
  · exact .blanks (cuts_piece c s).1 hb (hs ▸ hstops) hg
  · rw [hb]
    exact .line hline (hs ▸ hstops) hg
  · rw [hb]
    exact .block hbody hg

theorem readsToken_of_piece {c : Char} {s : Text} {k : TokenKind}
    (h : (piece c s).kind = .token k) : ReadsToken k (piece c s).text (piece c s).rest := by
  obtain ⟨hne, hcut⟩ := cuts_piece c s
  cases hv : (piece c s).text with
  | nil => exact absurd hv hne
  | cons d w =>
    rw [hv, List.cons_append] at hcut
    obtain ⟨rfl, hs⟩ := List.cons.inj hcut
    exact ⟨d, w, rfl, by rw [hs, ← h, ← hv]⟩

theorem tokensFrom_nil (pos : Nat) (spaced : Bool) : tokensFrom pos spaced [] = [] := by
  rw [tokensFrom.eq_def]

theorem tokensFrom_of_gap {c : Char} {s v r : Text} (h : piece c s = ⟨.gap, v, r⟩) (pos : Nat)
    (spaced : Bool) : tokensFrom pos spaced (c :: s) = tokensFrom (pos + v.length) true r := by
  rw [tokensFrom.eq_def]
  dsimp only
  rw [h]

theorem tokensFrom_of_token {c : Char} {s v r : Text} {k : TokenKind}
    (h : piece c s = ⟨.token k, v, r⟩) (pos : Nat) (spaced : Bool) :
    tokensFrom pos spaced (c :: s) =
      ⟨k, v, pos, spaced⟩ :: tokensFrom (pos + v.length) false r := by
  rw [tokensFrom.eq_def]
  dsimp only
  rw [h]

theorem tokensFrom_gap {r g : Text} (h : Gap r g) (pos : Nat) (spaced : Bool) :
    tokensFrom pos spaced (g ++ r) = tokensFrom (pos + g.length) (spaced || !g.isEmpty) r := by
  induction h generalizing pos spaced with
  | nil => simp
  | @blanks b g hne hb hs h ih =>
    cases b with
    | nil => exact absurd rfl hne
    | cons c b =>
      have hp := piece_blanks (hb c List.mem_cons_self)
        (fun d hd => hb d (List.mem_cons_of_mem c hd)) hs
      rw [List.append_assoc, List.cons_append, tokensFrom_of_gap hp, ih]
      simp [Nat.add_assoc, Nat.add_comm, Nat.add_left_comm]
  | @line b g hb hs h ih =>
    rw [List.cons_append, List.cons_append, List.append_assoc, tokensFrom_of_gap (piece_line hb hs),
      ih]
    simp [Nat.add_assoc, Nat.add_comm, Nat.add_left_comm]
  | @block b g hb h ih =>
    rw [List.cons_append, List.cons_append, List.append_assoc, tokensFrom_of_gap (piece_block hb _),
      ih]
    simp [Nat.add_assoc, Nat.add_comm, Nat.add_left_comm]

namespace Scanned

theorem tokensFrom_eq {pos : Nat} {spaced : Bool} {s : Text} {ts : List Token}
    (h : Scanned pos spaced s ts) : tokensFrom pos spaced s = ts := by
  induction h with
  | @done pos spaced g hg =>
    have := tokensFrom_gap hg pos spaced
    rw [List.append_nil] at this
    rw [this, tokensFrom_nil]
  | token hg hv h ih =>
    obtain ⟨c, w, rfl, hp⟩ := hv
    rw [tokensFrom_gap hg, List.cons_append, tokensFrom_of_token hp, ih]

theorem of_gap {c : Char} {s : Text} {pos : Nat} {spaced : Bool} {ts : List Token}
    (hp : (piece c s).kind = .gap)
    (h : Scanned (pos + (piece c s).text.length) true (piece c s).rest ts) :
    Scanned pos spaced (c :: s) ts := by
  have hcut := (cuts_piece c s).2
  have hne := (cuts_piece c s).1
  generalize hrest : (piece c s).rest = rest at h
  generalize hwhere : pos + (piece c s).text.length = place at h
  generalize hspaced : true = sp at h
  cases h with
  | done hg =>
    have := gap_of_piece hp (by rw [hrest, List.append_nil]) hg
    rw [← hcut, hrest]
    exact .done this
  | @token _ _ g v r k ts hg hv h =>
    have hgap := gap_of_piece hp hrest hg
    rw [← hwhere, Nat.add_assoc pos, ← List.length_append] at h ⊢
    have hempty : (spaced || !((piece c s).text ++ g).isEmpty) = true := by simp [hne]
    have := @Scanned.token pos spaced _ _ _ _ _ hgap hv h
    rw [hempty, List.append_assoc, ← hrest, hcut] at this
    rw [← hspaced, Bool.true_or]
    exact this

end Scanned

theorem scanned_tokensFrom (pos : Nat) (spaced : Bool) (s : Text) :
    Scanned pos spaced s (tokensFrom pos spaced s) := by
  fun_induction tokensFrom pos spaced s with
  | case1 pos spaced => exact .done .nil
  | case2 pos spaced c s p hkind ih => exact .of_gap hkind ih
  | case3 pos spaced c s p k hkind ih =>
    have hcut : p.text ++ p.rest = c :: s := (cuts_piece c s).2
    have hreads : ReadsToken k p.text p.rest := readsToken_of_piece hkind
    have := @Scanned.token pos spaced _ _ _ _ _ .nil hreads ih
    rw [List.nil_append, hcut] at this
    simpa using this

theorem scanned_tokenize (s : Text) : Scanned 0 false s (tokenize s) :=
  scanned_tokensFrom 0 false s

/-! ## Every token stands where it says -/

/-- The tokens stand in the text `s` behind place `pos`, one behind the other.
Each is the part of `s` between its two ends and is not empty. Before each token
and behind the last one there is only white space and comments, a token starts
with none of these, and it is marked as spaced if something stands before it. -/
def Laid (s : Text) : Nat → List Token → Prop
  | pos, [] => Gap [] (s.drop pos)
  | pos, t :: ts =>
    pos ≤ t.start ∧ t.value ≠ [] ∧ slice s t.start t.stop = t.value ∧
      Gap (s.drop t.start) (slice s pos t.start) ∧
      (∀ g r, s.drop t.start = g ++ r → Gap r g → g = []) ∧
      (t.spaced = true ↔ slice s pos t.start ≠ []) ∧ Laid s t.stop ts

theorem ReadsToken.ne_nil {k : TokenKind} {v r : Text} (h : ReadsToken k v r) : v ≠ [] := by
  obtain ⟨c, w, rfl, -⟩ := h
  exact List.cons_ne_nil c w

theorem ReadsToken.no_gap {k : TokenKind} {v r g x : Text} (h : ReadsToken k v r)
    (hx : v ++ r = g ++ x) (hg : Gap x g) : g = [] := by
  obtain ⟨c, w, rfl, hp⟩ := h
  cases g with
  | nil => rfl
  | cons d g =>
    obtain ⟨s, hs, hkind⟩ := hg.piece_kind ⟨g, rfl⟩
    rw [← hx, List.cons_append] at hs
    obtain ⟨rfl, rfl⟩ := List.cons.inj hs
    rw [hp] at hkind
    cases hkind

theorem slice_between (a b c : Text) : slice (a ++ (b ++ c)) a.length (a.length + b.length) = b := by
  unfold slice
  rw [List.drop_left, Nat.add_sub_cancel_left, List.take_left]

theorem Scanned.laid {pos : Nat} {spaced : Bool} {s : Text} {ts : List Token}
    (h : Scanned pos spaced s ts) (hsp : spaced = false) (front : Text)
    (hpos : front.length = pos) : Laid (front ++ s) pos ts := by
  induction h generalizing front with
  | done hg =>
    show Gap [] _
    rw [← hpos, List.drop_left]
    exact hg
  | @token pos spaced g v r k ts hg hv h ih =>
    subst hsp hpos
    have hstart : (front ++ (g ++ (v ++ r))).drop (front.length + g.length) = v ++ r := by
      rw [← List.append_assoc, ← List.length_append, List.drop_left]
    have hgap : slice (front ++ (g ++ (v ++ r))) front.length (front.length + g.length) = g :=
      slice_between front g (v ++ r)
    have hvalue : slice (front ++ (g ++ (v ++ r))) (front.length + g.length)
        (front.length + g.length + v.length) = v := by
      rw [← List.append_assoc, ← List.length_append, slice_between]
    refine ⟨Nat.le_add_right _ _, hv.ne_nil, hvalue, ?_, ?_, ?_, ?_⟩
    · show Gap (List.drop (front.length + g.length) _) _
      rw [hstart, hgap]
      exact hg
    · intro g' x hx hg'
      exact hv.no_gap (hstart.symm.trans hx) hg'
    · show (false || !g.isEmpty) = true ↔ _
      rw [hgap]
      simp
    · show Laid _ (front.length + g.length + v.length) ts
      have := ih rfl (front ++ g ++ v) (by simp [Nat.add_assoc])
      simpa using this

theorem laid_tokenize (s : Text) : Laid s 0 (tokenize s) :=
  (scanned_tokenize s).laid rfl [] rfl

theorem Laid.pairwise {s : Text} {pos : Nat} {ts : List Token} (h : Laid s pos ts) :
    ts.Pairwise (fun t u => t.stop ≤ u.start) ∧ ∀ t ∈ ts, pos ≤ t.start := by
  induction ts generalizing pos with
  | nil => exact ⟨.nil, fun t ht => absurd ht List.not_mem_nil⟩
  | cons t ts ih =>
    obtain ⟨hpos, -, -, -, -, -, htail⟩ := h
    obtain ⟨hpair, hle⟩ := ih htail
    refine ⟨List.pairwise_cons.2 ⟨hle, hpair⟩, ?_⟩
    intro u hu
    rcases List.mem_cons.1 hu with rfl | hu
    · exact hpos
    · calc pos ≤ t.start := hpos
        _ ≤ t.stop := Nat.le_add_right _ _
        _ ≤ u.start := hle u hu

theorem Laid.nodup {s : Text} {pos : Nat} {ts : List Token} (h : Laid s pos ts) : ts.Nodup := by
  induction ts generalizing pos with
  | nil => exact .nil
  | cons t ts ih =>
    obtain ⟨-, hvalue, -, -, -, -, htail⟩ := h
    refine List.nodup_cons.2 ⟨?_, ih htail⟩
    intro ht
    have hplace : t.start + t.value.length ≤ t.start := htail.pairwise.2 t ht
    have hlength := List.length_pos_iff.2 hvalue
    omega

/-! ## Writing tokens out and reading them again -/

theorem gap_space {k : TokenKind} {v r : Text} (h : ReadsToken k v r) (x : Text) :
    Gap (v ++ x) [' '] := by
  have := Gap.blanks (r := v ++ x) (b := [' ']) (List.cons_ne_nil _ _) (by decide)
    (h.stops_blank x) .nil
  rwa [List.append_nil] at this

/-- The tokens written out are the text with its gaps thinned. -/
theorem Scanned.thinned {pos : Nat} {spaced : Bool} {s : Text} {ts : List Token}
    (h : Scanned pos spaced s ts) (hsp : spaced = false) :
    Thinned s (renderBehind Token.value ts) := by
  induction h with
  | done hg => exact .stop _
  | @token pos spaced g v r k ts hg hv h ih =>
    subst hsp
    have hrest := (ih rfl).append v
    unfold renderBehind
    cases g with
    | nil => simpa using hrest
    | cons c g => simpa using Thinned.gap (c := ' ') (by decide) (c :: g) hrest

def Token.shape (t : Token) : Token := { t with start := 0 }

@[simp] theorem Token.shape_shape (t : Token) : t.shape.shape = t.shape := rfl

def bare (ts : List Token) : List Token := ts.map Token.shape

@[simp] theorem bare_nil : bare [] = [] := rfl

@[simp] theorem bare_cons (t : Token) (ts : List Token) : bare (t :: ts) = t.shape :: bare ts := rfl

@[simp] theorem bare_append (ts us : List Token) : bare (ts ++ us) = bare ts ++ bare us :=
  List.map_append

@[simp] theorem bare_bare (ts : List Token) : bare (bare ts) = bare ts := by
  simp [bare, Function.comp_def]

@[simp] theorem length_bare (ts : List Token) : (bare ts).length = ts.length := List.length_map _

theorem bare_drop (n : Nat) (ts : List Token) : (bare ts).drop n = bare (ts.drop n) :=
  List.map_drop.symm

theorem bare_take (n : Nat) (ts : List Token) : (bare ts).take n = bare (ts.take n) :=
  List.map_take.symm

theorem bare_dropWhile {p : Token → Bool} (hp : ∀ t, p t.shape = p t) (ts : List Token) :
    (bare ts).dropWhile p = bare (ts.dropWhile p) := by
  induction ts with
  | nil => rfl
  | cons t ts ih =>
    rw [bare_cons, List.dropWhile_cons, List.dropWhile_cons, hp, ih]
    split <;> rfl

/-- The tokens written out behind other text are read as the same tokens, at
other places. -/
theorem Scanned.render {pos : Nat} {spaced : Bool} {s : Text} {ts : List Token}
    (h : Scanned pos spaced s ts) (hsp : spaced = false) (place : Nat) :
    ∃ ts', Scanned place false (renderBehind Token.value ts) ts' ∧
      bare ts' = bare ts := by
  induction h generalizing place with
  | done hg => exact ⟨[], .done .nil, rfl⟩
  | @token pos spaced g v r k ts hg hv h ih =>
    subst hsp
    have hreads := hv.thinned (h.thinned rfl)
    cases g with
    | nil =>
      obtain ⟨ts', hscan, hbare⟩ := ih rfl (place + 0 + v.length)
      refine ⟨_, @Scanned.token place false [] v _ k ts' .nil hreads hscan, ?_⟩
      simp [Token.shape, hbare]
    | cons c g =>
      obtain ⟨ts', hscan, hbare⟩ := ih rfl (place + 1 + v.length)
      refine ⟨_, @Scanned.token place false [' '] v _ k ts' (gap_space hv _) hreads hscan, ?_⟩
      simp [Token.shape, hbare]

/-- Tokens without their places, the first one not spaced: what is left of the
tokens of a text when they are written out. -/
def shapes : List Token → List Token
  | [] => []
  | t :: ts => { t with start := 0, spaced := false } :: bare ts

theorem shapes_bare (ts : List Token) : shapes (bare ts) = shapes ts := by
  cases ts with
  | nil => rfl
  | cons t ts => simp [shapes, Token.shape]

theorem shapes_tokenize_renderTokens (s : Text) :
    shapes (tokenize (renderTokens (tokenize s))) = shapes (tokenize s) := by
  generalize htokens : tokenize s = ts
  have hscan := htokens ▸ scanned_tokenize s
  generalize hpos : 0 = pos at hscan
  generalize hsp : false = spaced at hscan
  cases hscan with
  | done hg =>
    show shapes (tokensFrom 0 false []) = []
    rw [tokensFrom_nil]
    rfl
  | @token pos spaced g v r k ts hg hv h =>
    obtain ⟨ts', hscan, hbare⟩ := h.render rfl (0 + 0 + v.length)
    have hfirst := @Scanned.token 0 false [] v _ k ts' .nil (hv.thinned (h.thinned rfl)) hscan
    have htext : renderTokens (⟨k, v, pos + g.length, spaced || !g.isEmpty⟩ :: ts) =
        [] ++ (v ++ renderBehind Token.value ts) := rfl
    rw [htext, tokenize, hfirst.tokensFrom_eq]
    simp [shapes, hbare]

theorem renderTokens_shapes (ts : List Token) : renderTokens (shapes ts) = renderTokens ts := by
  have hbehind : ∀ us, renderBehind Token.value (bare us) = renderBehind Token.value us := by
    intro us
    induction us with
    | nil => rfl
    | cons u us ih =>
      rw [bare_cons, renderBehind, renderBehind, ih]
      rfl
  cases ts with
  | nil => rfl
  | cons t ts => exact congrArg (t.value ++ ·) (hbehind ts)

theorem renderTokens_tokenize_renderTokens (s : Text) :
    renderTokens (tokenize (renderTokens (tokenize s))) = renderTokens (tokenize s) := by
  rw [← renderTokens_shapes, shapes_tokenize_renderTokens, renderTokens_shapes]

def Token.word (t : Token) : TokenKind × Text := (t.kind, t.value)

theorem map_word_bare (ts : List Token) : (bare ts).map Token.word = ts.map Token.word := by
  rw [bare, List.map_map]
  rfl

theorem map_word_shapes (ts : List Token) : (shapes ts).map Token.word = ts.map Token.word := by
  cases ts with
  | nil => rfl
  | cons t ts => simp [shapes, bare, Token.word, Token.shape, Function.comp_def]

/-- The scanner loses nothing, and the tokens written out are a normal form of
the text: they are read as the same tokens again. -/
theorem tokenize_lossless (s : Text) :
    Laid s 0 (tokenize s) ∧
      (tokenize s).Pairwise (fun t u => t.stop ≤ u.start) ∧
      (tokenize (renderTokens (tokenize s))).map Token.word = (tokenize s).map Token.word := by
  refine ⟨laid_tokenize s, (laid_tokenize s).pairwise.1, ?_⟩
  calc (tokenize (renderTokens (tokenize s))).map Token.word
      = (shapes (tokenize (renderTokens (tokenize s)))).map Token.word := (map_word_shapes _).symm
    _ = (shapes (tokenize s)).map Token.word := by rw [shapes_tokenize_renderTokens]
    _ = (tokenize s).map Token.word := map_word_shapes _

end TableDialects
