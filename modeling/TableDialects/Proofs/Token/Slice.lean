import TableDialects.Proofs.Token.Printed

/- Tokens of parts of a text. A part that is cut out along the edges of tokens
   has the tokens of the whole that stand in it (`tokenize_between`), and the
   clauses of a section have the tokens of its groups (`splitText_tokens`). So a
   reader that cuts clauses out of its source and scans each again reads what it
   would read from the tokens of the source. -/
namespace TableDialects

open Scan

/-- The place behind the last of the tokens; `pos` if there is none. -/
def endFrom (pos : Nat) : List Token → Nat
  | [] => pos
  | t :: ts => endFrom t.stop ts

theorem endFrom_concat (pos : Nat) (ts : List Token) (t : Token) :
    endFrom pos (ts ++ [t]) = t.stop := by
  induction ts generalizing pos with
  | nil => rfl
  | cons u ts ih => exact ih u.stop

theorem endFrom_getLast? {ts : List Token} {t : Token} (h : ts.getLast? = some t) (pos : Nat) :
    endFrom pos ts = t.stop := by
  obtain ⟨us, rfl⟩ := List.getLast?_eq_some_iff.1 h
  exact endFrom_concat pos us t

theorem stops_append {p : Char → Bool} {g r r' : Text} (hr : Stops p r → Stops p r')
    (h : Stops p (g ++ r)) : Stops p (g ++ r') := by
  cases g with
  | nil => exact hr h
  | cons c g => exact stops_cons.2 (stops_cons.1 h)

/-- A gap stays one in front of a text that starts like the old one, or not at
all. -/
theorem Gap.before {r r' g : Text} (h : Gap r g) (hr : ∀ p, Stops p r → Stops p r') :
    Gap r' g := by
  induction h with
  | nil => exact .nil
  | blanks hne hb hs h ih => exact .blanks hne hb (stops_append (hr _) hs) ih
  | line hb hs h ih => exact .line hb (stops_append (hr _) hs) ih
  | block hb h ih => exact .block hb ih

theorem Gap.before_nil {r g : Text} (h : Gap r g) : Gap [] g :=
  h.before fun p _ => stops_nil p

/-- The token, `n` places further on. -/
def Token.moved (n : Nat) (t : Token) : Token := { t with start := n + t.start }

namespace Scanned

/-- Behind its first tokens a text may go on otherwise, if what follows them is
thinned. The same text may stand at another place, behind a gap or not. -/
theorem splice {pos : Nat} {spaced : Bool} {s : Text} {ts us : List Token}
    (h : Scanned pos spaced s (ts ++ us)) :
    ∃ s₁ s₂, s = s₁ ++ s₂ ∧ pos + s₁.length = endFrom pos ts ∧
      Scanned (endFrom pos ts) (spaced && ts.isEmpty) s₂ us ∧
      ∀ place flag, ∃ ts', ts'.map Token.word = ts.map Token.word ∧
        (place = pos → flag = spaced → ts' = ts) ∧ place + s₁.length = endFrom place ts' ∧
        ∀ r us', Thinned s₂ r → Scanned (endFrom place ts') (flag && ts.isEmpty) r us' →
          Scanned place flag (s₁ ++ r) (ts' ++ us') := by
  induction ts generalizing pos spaced s with
  | nil =>
    refine ⟨[], s, rfl, rfl, by simpa [endFrom] using h, fun place flag => ?_⟩
    refine ⟨[], rfl, fun _ _ => rfl, rfl, fun r us' _ hr => ?_⟩
    simpa [endFrom] using hr
  | cons t ts ih =>
    rw [List.cons_append] at h
    cases h with
    | @token _ _ g v x k _ hg hv h =>
      obtain ⟨r₁, r₂, rfl, hlen, hrest, hsplice⟩ := ih h
      refine ⟨g ++ (v ++ r₁), r₂, by simp, ?_, by simpa [endFrom, Token.stop] using hrest,
        fun place flag => ?_⟩
      · rw [endFrom, Token.stop, ← hlen]
        simp [Nat.add_assoc]
      obtain ⟨ts', hword, hsame, hend, hscan⟩ := hsplice (place + g.length + v.length) false
      refine ⟨⟨k, v, place + g.length, flag || !g.isEmpty⟩ :: ts', ?_, ?_, ?_, ?_⟩
      · rw [List.map_cons, hword]
        rfl
      · rintro rfl rfl
        rw [hsame rfl rfl]
      · rw [endFrom, Token.stop, ← hend]
        simp [Nat.add_assoc]
      · intro r us' hr htail
        have hread : ReadsToken k v (r₁ ++ r) := hv.thinned (hr.append r₁)
        have hgap : Gap (v ++ (r₁ ++ r)) g := by
          apply hg.before
          intro p hp
          obtain ⟨c, w, rfl, -⟩ := hv
          exact stops_cons.2 (stops_cons.1 hp)
        have hbehind := hscan r us' hr (by simpa [endFrom, Token.stop] using htail)
        have := @Scanned.token place flag _ _ _ _ _ hgap hread hbehind
        simpa using this

/-- A text can be cut off anywhere in the gap behind its first tokens. -/
theorem cut {pos : Nat} {spaced : Bool} {s : Text} {ts us : List Token}
    (h : Scanned pos spaced s (ts ++ us)) :
    ∃ s₁ s₂, s = s₁ ++ s₂ ∧ pos + s₁.length = endFrom pos ts ∧
      Scanned (endFrom pos ts) (spaced && ts.isEmpty) s₂ us ∧
      ∀ g r, s₂ = g ++ r → Gap [] g → Scanned pos spaced (s₁ ++ g) ts := by
  obtain ⟨s₁, s₂, rfl, hlen, hrest, hsplice⟩ := h.splice
  refine ⟨s₁, s₂, rfl, hlen, hrest, ?_⟩
  rintro g r rfl hg
  obtain ⟨ts', -, hsame, -, hscan⟩ := hsplice pos spaced
  obtain rfl := hsame rfl rfl
  simpa using hscan g [] (Thinned.left g r) (.done hg)

theorem of_first {pos : Nat} {spaced : Bool} {s : Text} {t : Token} {ts : List Token}
    (h : Scanned pos spaced s (t :: ts)) :
    ∃ g s', s = g ++ s' ∧ pos + g.length = t.start ∧ Gap s' g ∧
      Scanned t.start false s' ({ t with spaced := false } :: ts) := by
  cases h with
  | @token _ _ g v r k _ hg hv h =>
    have := @Scanned.token (pos + g.length) false [] v r k ts .nil hv h
    exact ⟨g, v ++ r, rfl, rfl, hg, by simpa using this⟩

/-- Tokens do not depend on where the text stands, apart from their places. -/
theorem shift {pos : Nat} {spaced : Bool} {s : Text} {ts : List Token}
    (h : Scanned pos spaced s ts) (place : Nat) :
    ∃ ts', Scanned place spaced s ts' ∧ bare ts' = bare ts := by
  induction h generalizing place with
  | done hg => exact ⟨[], .done hg, rfl⟩
  | @token pos spaced g v r k ts hg hv h ih =>
    obtain ⟨ts', hscan, hbare⟩ := ih (place + g.length + v.length)
    exact ⟨_, .token hg hv hscan, by simp [Token.shape, hbare]⟩

/-- In a text that stands `n` places further on, so do the tokens. -/
theorem moved {pos : Nat} {spaced : Bool} {s : Text} {ts : List Token}
    (h : Scanned pos spaced s ts) (n : Nat) : Scanned (n + pos) spaced s (ts.map (Token.moved n)) := by
  induction h with
  | done hg => exact .done hg
  | @token pos spaced g v r k ts hg hv h ih =>
    have hplace : n + (pos + g.length + v.length) = n + pos + g.length + v.length := by omega
    rw [hplace] at ih
    have hscan := @Scanned.token (n + pos) spaced g v r k _ hg hv ih
    rw [Nat.add_assoc] at hscan
    exact hscan

theorem bare_tokenize {pos : Nat} {s : Text} {ts : List Token} (h : Scanned pos false s ts) :
    bare (tokenize s) = bare ts := by
  obtain ⟨ts', hscan, hbare⟩ := h.shift 0
  rw [tokenize, hscan.tokensFrom_eq, hbare]

end Scanned

theorem slice_of_lengths {s₁ s₂ s₃ : Text} {a b : Nat} (ha : s₁.length = a)
    (hb : a + s₂.length = b) : slice (s₁ ++ (s₂ ++ s₃)) a b = s₂ := by
  subst ha hb
  exact slice_between s₁ s₂ s₃

theorem tokenize_between {s : Text} {before inner behind : List Token} {t u : Token}
    (h : tokenize s = before ++ t :: (inner ++ u :: behind)) :
    bare (tokenize (slice s t.stop u.start)) = bare inner := by
  have hscan := scanned_tokenize s
  rw [h, List.append_cons] at hscan
  obtain ⟨s₁, s₂, rfl, hlen, hrest, -⟩ := hscan.cut
  rw [endFrom_concat, Nat.zero_add] at hlen
  rw [endFrom_concat, Bool.false_and] at hrest
  obtain ⟨r₁, r₂, rfl, hlen', hrest', hcut⟩ := hrest.cut
  obtain ⟨g, r, rfl, hstart, hg, -⟩ := hrest'.of_first
  have hslice : slice (s₁ ++ (r₁ ++ (g ++ r))) t.stop u.start = r₁ ++ g := by
    rw [← List.append_assoc r₁]
    apply slice_of_lengths hlen
    rw [List.length_append, ← Nat.add_assoc, hlen', hstart]
  rw [hslice]
  exact (hcut g r rfl hg.before_nil).bare_tokenize

/-! ## No token ends in white space -/

/-- The last character of the text is no white space. -/
def EndsFull (s : Text) : Prop := ∃ x c, s = x ++ [c] ∧ Text.isBlank c = false

theorem EndsFull.append {s : Text} (h : EndsFull s) (front : Text) : EndsFull (front ++ s) := by
  obtain ⟨x, c, rfl, hc⟩ := h
  exact ⟨front ++ x, c, by simp, hc⟩

/-- White space at the end of a text does not reach into a start of it that ends
full. -/
theorem EndsFull.of_append {part rest p w : Text} (h : EndsFull part)
    (hs : part ++ rest = p ++ w) (hw : ∀ c ∈ w, Text.isBlank c = true) :
    ∃ x, p = part ++ x ∧ rest = x ++ w := by
  rcases List.append_eq_append_iff.1 hs with hx | ⟨x, hp, rfl⟩
  · exact hx
  · obtain ⟨y, c, hy, hc⟩ := h
    have hnil : x = [] := by
      rcases List.eq_nil_or_concat x with hx | ⟨z, d, rfl⟩
      · exact hx
      · rw [hp, List.concat_eq_append, ← List.append_assoc] at hy
        cases (List.append_inj' hy rfl).2
        rw [hw _ (by simp)] at hc
        cases hc
    subst hnil
    exact ⟨[], by simpa using hp.symm, rfl⟩

theorem endsFull_of_all {s : Text} (hne : s ≠ []) (h : ∀ c ∈ s, Text.isBlank c = false) :
    EndsFull s :=
  ⟨s.dropLast, s.getLast hne, (List.dropLast_concat_getLast hne).symm,
    h _ (List.getLast_mem hne)⟩

theorem isBlank_of_isDigit {c : Char} (h : Text.isDigit c = true) : Text.isBlank c = false := by
  cases hc : Text.isBlank c with
  | false => rfl
  | true => rw [Text.isDigit_of_isBlank hc] at h; cases h

theorem isBlank_of_continuesWord {c : Char} (h : continuesWord c = true) :
    Text.isBlank c = false := by
  cases hc : Text.isBlank c with
  | false => rfl
  | true => rw [continuesWord_of_isBlank hc] at h; cases h

theorem Scan.IsMantissa.isBlank {v : Text} (h : IsMantissa v) : ∀ c ∈ v, Text.isBlank c = false := by
  intro c hc
  cases h with
  | whole hne hd => exact isBlank_of_isDigit (hd c hc)
  | point hne hd he =>
    rcases List.mem_append.1 hc with hc | hc
    · exact isBlank_of_isDigit (hd c hc)
    · rcases List.mem_cons.1 hc with rfl | hc
      · decide
      · exact isBlank_of_isDigit (he c hc)

theorem Scan.ReadsNumber.endsFull {v r : Text} (h : ReadsNumber v r) : EndsFull v := by
  cases h with
  | plain hv hr he => exact endsFull_of_all hv.ne_nil hv.isBlank
  | scaled hv hl hne hd hr =>
    exact ((endsFull_of_all hne fun c hc => isBlank_of_isDigit (hd c hc)).append _).append _

theorem continuesWord_of_startsWord {c : Char} (h : startsWord c = true) :
    continuesWord c = true := by
  unfold startsWord at h
  unfold continuesWord
  simp only [Bool.or_eq_true, beq_iff_eq] at h ⊢
  rcases h with ((h | rfl) | rfl) | rfl
  · have hlow : c.toNat < 128 := by
      simp only [Text.isAsciiLetter, Bool.or_eq_true, Bool.and_eq_true, decide_eq_true_eq] at h
      omega
    refine .inl (.inl (.inl ?_))
    rw [Text.isWordChar, if_pos hlow, h]
    rfl
  · exact .inl (.inl (.inl (by decide)))
  · exact .inl (.inr rfl)
  · exact .inr rfl

theorem isBlank_of_isMark {c : Char} (h : isMark c = true) : Text.isBlank c = false := by
  simp only [isMark, Bool.or_eq_true, beq_iff_eq] at h
  rcases h with (((rfl | rfl) | rfl) | rfl) | rfl <;> decide

theorem isBlank_of_isPair {c d : Char} (h : isPair c d = true) : ∀ e ∈ [c, d], Text.isBlank e = false := by
  simp only [isPair, Bool.or_eq_true, Bool.and_eq_true, beq_iff_eq] at h
  rcases h with ((((⟨rfl, rfl⟩ | ⟨rfl, rfl⟩) | ⟨rfl, rfl⟩) | ⟨rfl, rfl⟩) | ⟨rfl, rfl⟩) | ⟨rfl, rfl⟩ <;> decide

theorem isBlank_of_word {c : Char} {w : Text} (hc : startsWord c = true) (hw : ∀ d ∈ w, continuesWord d = true) :
    ∀ d ∈ c :: w, Text.isBlank d = false :=
  List.forall_mem_cons.2 ⟨isBlank_of_continuesWord (continuesWord_of_startsWord hc),
    fun d hd => isBlank_of_continuesWord (hw d hd)⟩

theorem ReadsToken.endsFull {k : TokenKind} {v r : Text} (h : ReadsToken k v r) : EndsFull v := by
  cases h.rule with
  | @string lead n hlead hr => exact ⟨lead ++ '\'' :: Text.double '\'' n, '\'', by simp, by decide⟩
  | @ident o q n ho hr =>
    refine ⟨o :: Text.double q n, q, rfl, ?_⟩
    rcases ho with ⟨-, rfl⟩ | ⟨-, rfl⟩ | ⟨-, rfl⟩ <;> decide
  | number hn => exact hn.endsFull
  | word hc hw hr hn => exact endsFull_of_all (List.cons_ne_nil _ _) (isBlank_of_word hc hw)
  | punct hc hr => exact ⟨[], _, rfl, isBlank_of_isMark hc⟩
  | pair hp => exact endsFull_of_all (List.cons_ne_nil _ _) (isBlank_of_isPair hp)
  | op hblank => exact ⟨[], _, rfl, hblank⟩

theorem strip_of_full {s : Text} (hs : Stops Text.isBlank s) (he : EndsFull s) :
    Text.strip s = s := by
  have hstart := hs.dropWhile_append (v := []) (fun c hc => absurd hc List.not_mem_nil)
  rw [List.nil_append] at hstart
  obtain ⟨x, c, rfl, hc⟩ := he
  unfold Text.strip Text.trim Text.trimStart Text.trimEnd
  rw [hstart, List.reverse_append, List.reverse_singleton, List.singleton_append,
    List.dropWhile_cons, hc]
  simp

/-- A text that starts with a token starts as that token does. -/
theorem Scanned.startsFull {pos : Nat} {spaced : Bool} {s : Text} {t : Token} {ts : List Token}
    (h : Scanned pos spaced s (t :: ts)) (hstart : t.start = pos) : Stops Text.isBlank s := by
  cases h with
  | @token _ _ g v r k _ hg hv h =>
    have hg : g = [] := List.length_eq_zero_iff.1 (Nat.add_eq_left.1 hstart)
    rw [hg, List.nil_append]
    exact hv.stops_blank r

/-- A text cut off right behind its last token ends as that token does. -/
theorem Scanned.endsFull {pos : Nat} {spaced : Bool} {s : Text} {ts : List Token}
    (h : Scanned pos spaced s ts) (hne : ts ≠ []) (hend : pos + s.length = endFrom pos ts) :
    EndsFull s := by
  induction h with
  | done hg => exact absurd rfl hne
  | @token pos spaced g v r k ts hg hv h ih =>
    simp only [List.length_append, ← Nat.add_assoc] at hend
    by_cases hts : ts = []
    · subst hts
      have hr : r = [] := by
        have : pos + g.length + v.length + r.length = pos + g.length + v.length := hend
        exact List.length_eq_zero_iff.1 (by omega)
      rw [hr, List.append_nil]
      exact hv.endsFull.append g
    · exact ((ih hts hend).append v).append g

/-! ## Clauses have the tokens of their groups -/

/-- The text that a group of tokens spans starts with the first and ends with the
last of them. -/
theorem scanned_groupText {s : Text} {t : Token} {ts : List Token} (hin : t :: ts <:+: tokenize s) :
    Scanned t.start false (groupText s (t :: ts)) ({ t with spaced := false } :: ts) ∧
      t.start + (groupText s (t :: ts)).length = endFrom t.start (t :: ts) := by
  obtain ⟨before, behind, hsplit⟩ := hin
  have hscan := scanned_tokenize s
  rw [← hsplit, List.append_assoc] at hscan
  obtain ⟨s₁, s₂, rfl, hlen, hrest, -⟩ := hscan.cut
  obtain ⟨last, hlast⟩ : ∃ last, (t :: ts).getLast? = some last :=
    ⟨_, List.getLast?_eq_some_getLast (List.cons_ne_nil t ts)⟩
  rw [List.cons_append] at hrest
  obtain ⟨g, s₃, rfl, hstart, -, hfirst⟩ := hrest.of_first
  rw [← List.cons_append] at hfirst
  obtain ⟨w, x, rfl, hlen', -, hcut⟩ := hfirst.cut
  have hw := hcut [] x rfl .nil
  rw [List.append_nil] at hw
  have hstop : t.start + w.length = last.stop := by
    rw [hlen']
    exact endFrom_getLast? hlast t.start
  have hslice : slice (s₁ ++ (g ++ (w ++ x))) t.start last.stop = w := by
    rw [← List.append_assoc]
    refine slice_of_lengths ?_ hstop
    rw [List.length_append]
    omega
  have hstrip : Text.strip w = w :=
    strip_of_full (hw.startsFull rfl) (hw.endsFull (List.cons_ne_nil _ _) hlen')
  have htext : groupText (s₁ ++ (g ++ (w ++ x))) (t :: ts) = w := by
    unfold groupText
    rw [hlast]
    dsimp only
    rw [hslice, hstrip]
  rw [htext]
  exact ⟨hw, hlen'⟩

/-- The text that a group of tokens spans has the tokens of the group, the first
one with no gap before it. -/
theorem tokenize_groupText {s : Text} {group : List Token} (hne : group ≠ [])
    (hin : group <:+: tokenize s) :
    bare (tokenize (groupText s group)) = shapes group := by
  cases group with
  | nil => exact absurd rfl hne
  | cons t ts =>
    rw [(scanned_groupText hin).1.bare_tokenize]
    rfl

/-- Tokens that stand close together leave nothing between them. -/
theorem Scanned.eq_flatMap {pos : Nat} {spaced : Bool} {s : Text} {ts : List Token}
    (h : Scanned pos spaced s ts) (hts : ∀ t ∈ ts, t.spaced = false) :
    ∃ g, s = ts.flatMap Token.value ++ g ∧ pos + (ts.flatMap Token.value).length = endFrom pos ts := by
  induction h with
  | @done pos spaced g hg => exact ⟨g, rfl, rfl⟩
  | @token pos spaced g v r k ts hg hv h ih =>
    obtain ⟨g', rfl, hlen⟩ := ih fun t ht => hts t (List.mem_cons_of_mem _ ht)
    have hclose : (spaced || !g.isEmpty) = false := hts _ List.mem_cons_self
    have hnil : g = [] := by simpa using (Bool.or_eq_false_iff.1 hclose).2
    subst hnil
    refine ⟨g', by simp, ?_⟩
    rw [endFrom, Token.stop, List.flatMap_cons, List.length_append, ← hlen]
    simp [Nat.add_assoc]

/-- A group of tokens that stand close together spans the text of its tokens. -/
theorem groupText_eq_flatMap {s : Text} {t : Token} {ts : List Token} (hin : t :: ts <:+: tokenize s)
    (hts : ∀ u ∈ ts, u.spaced = false) : groupText s (t :: ts) = (t :: ts).flatMap Token.value := by
  obtain ⟨hscan, hlen⟩ := scanned_groupText hin
  obtain ⟨g, htext, hend⟩ := hscan.eq_flatMap fun u hu => by
    rcases List.mem_cons.1 hu with rfl | hu
    · rfl
    · exact hts u hu
  have hlength : (groupText s (t :: ts)).length = ((t :: ts).flatMap Token.value).length := by
    have hsame : t.start + ((t :: ts).flatMap Token.value).length = endFrom t.start (t :: ts) := hend
    omega
  have hg : g = [] := by
    rw [htext, List.length_append] at hlength
    exact List.length_eq_zero_iff.1 (Nat.left_eq_add.1 hlength.symm)
  rw [htext, hg, List.append_nil]
  rfl

theorem isPunct_unique {t : Token} {p q : Text} (h : t.isPunct p = true) (hne : p ≠ q) :
    t.isPunct q = false := by
  unfold Token.isPunct at *
  rw [Bool.and_eq_true, beq_iff_eq, beq_iff_eq] at h
  rw [h.2, beq_eq_false_iff_ne.2 hne, Bool.and_false]

theorem groupsFrom_ne_nil (separator : Text) (depth : Int) (ts : List Token) :
    groupsFrom separator depth ts ≠ [] := by
  fun_induction groupsFrom separator depth ts <;> simp

/-- A token that does not separate is the start of the group behind it. -/
theorem groupsFrom_cons {separator : Text} {t : Token} {depth : Int} (us : List Token)
    (h : t.isPunct separator = false ∨ depth ≠ 0) :
    groupsFrom separator depth (t :: us) =
      (groupsFrom separator (depth + t.turn) us).modifyHead (t :: ·) := by
  rw [groupsFrom]
  have hcond : (!t.isOpen && !t.isClose && t.isPunct separator && depth == 0) = false := by
    rcases h with h | h
    · simp [h]
    · simp [h]
  rw [hcond, if_neg Bool.false_ne_true]
  cases hg : groupsFrom separator (depth + t.turn) us with
  | nil => exact absurd hg (groupsFrom_ne_nil _ _ _)
  | cons g gs => rfl

theorem groupsFrom_cases (separator : Text) (depth : Int) (ts : List Token) :
    ∃ group groups, groupsFrom separator depth ts = group :: groups ∧ group <+: ts ∧
      ∀ g ∈ groups, g <:+: ts := by
  induction ts generalizing depth with
  | nil => exact ⟨[], [], rfl, List.prefix_refl _, fun g hg => absurd hg List.not_mem_nil⟩
  | cons t ts ih =>
    unfold groupsFrom
    split
    · obtain ⟨group, groups, heq, hpre, hin⟩ := ih depth
      refine ⟨[], _, rfl, List.nil_prefix, ?_⟩
      intro g hg
      rw [heq] at hg
      rcases List.mem_cons.1 hg with rfl | hg
      · exact hpre.isInfix.trans (List.infix_cons (List.infix_refl ts))
      · exact (hin g hg).trans (List.infix_cons (List.infix_refl ts))
    · obtain ⟨group, groups, heq, hpre, hin⟩ := ih (depth + t.turn)
      rw [heq]
      refine ⟨t :: group, groups, rfl, List.cons_prefix_cons.2 ⟨rfl, hpre⟩, ?_⟩
      intro g hg
      exact (hin g hg).trans (List.infix_cons (List.infix_refl ts))

theorem mem_splitGroups {separator : Text} {ts g : List Token} (h : g ∈ splitGroups separator ts) :
    g ≠ [] ∧ g <:+: ts := by
  unfold splitGroups at h
  obtain ⟨hmem, hne⟩ := List.mem_filter.1 h
  obtain ⟨group, groups, heq, hpre, hin⟩ := groupsFrom_cases separator 0 ts
  rw [heq] at hmem
  refine ⟨by simpa using hne, ?_⟩
  rcases List.mem_cons.1 hmem with rfl | hmem
  · exact hpre.isInfix
  · exact hin g hmem

/-- The parts of a source have the tokens of the groups they are cut from. -/
theorem splitText_tokens (separator s : Text) :
    (splitText separator s).map (fun part => bare (tokenize part)) =
      (splitGroups separator (tokenize s)).map shapes := by
  unfold splitText
  rw [List.map_map]
  apply List.map_congr_left
  intro g hg
  obtain ⟨hne, hin⟩ := mem_splitGroups hg
  exact tokenize_groupText hne hin

end TableDialects
