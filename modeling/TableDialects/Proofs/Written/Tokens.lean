import TableDialects.Proofs.Cleanup.Width
import TableDialects.Proofs.Reading.Section

/- The tokens from which clauses are written: keywords, names in the quotes of a
   dialect, and lists of names in parentheses. A list of names is read as the
   names (`takeColumns_group`). Token lists without a comma or an open
   parenthesis of their own are `Whole`: they stay together when a column
   section is split (`splitGroups_joinClauses`). -/
namespace TableDialects

namespace Token

def keyword (w : String) : Token := ⟨.word, w.toList, 0, true⟩

def quoted (d : Dialect) (n : Text) : Token := ⟨.ident, d.quote n, 0, true⟩

/-- A punctuation mark, directly behind what stands before it. -/
def mark (c : Char) : Token := ⟨.punct, [c], 0, false⟩

def tight (t : Token) : Token := { t with spaced := false }

def apart (t : Token) : Token := { t with spaced := true }

end Token

/-! ## Names -/

theorem isIdentifier_quoted {d : Dialect} {n : Text} (h : d.transports n = true) :
    (Token.quoted d n).isIdentifier = true := by
  unfold Token.isIdentifier
  rw [show (Token.quoted d n).value = d.quote n from rfl, (Dialect.transports_iff.1 h).2.2]
  rfl

theorem name_quoted {d : Dialect} {n : Text} (h : d.transports n = true) :
    (Token.quoted d n).name = n :=
  (unquoteIdentifier_quote d n).trans (Dialect.transports_iff.1 h).2.1

theorem printed_quoted (d : Dialect) {n : Text} (h : isPlainName n = true) :
    (Token.quoted d n).Printed := ⟨d, n, h, rfl⟩

/-- A name and the schema that may qualify it. -/
def qualifiedTokens (d : Dialect) (q : QualifiedName) : List Token :=
  match q.schema with
  | some s => [Token.quoted d s, Token.mark '.', (Token.quoted d q.name).tight]
  | none => [Token.quoted d q.name]

/-- A qualified name is read as itself before anything but a dot. -/
theorem takeQualified_tokens (what : Text) {d : Dialect} {q : QualifiedName}
    (hschema : ∀ s ∈ q.schema, d.transports s = true) (hname : d.transports q.name = true)
    {rest : List Token} (hrest : startsWithPunct ['.'] rest = false) :
    takeQualified what (qualifiedTokens d q ++ rest) = .ok (q, rest) := by
  obtain ⟨schema, name⟩ := q
  have hlast : ∀ {t : Token}, t.isIdentifier = true → t.name = name → Dotted [name] [t] := by
    rintro t ht rfl
    exact .last ht
  have hn : Dotted [name] [Token.quoted d name] := hlast (isIdentifier_quoted hname) (name_quoted hname)
  cases schema with
  | none =>
    obtain ⟨n, more, hparts, htake⟩ := hn.takeQualified what hrest
    cases hparts
    exact htake
  | some s =>
    have hs := hschema s rfl
    have hdotted : Dotted [(Token.quoted d s).name, name]
        [Token.quoted d s, Token.mark '.', (Token.quoted d name).tight] :=
      .more (isIdentifier_quoted hs) (by decide) (hlast (isIdentifier_quoted hname) (name_quoted hname))
    rw [name_quoted hs] at hdotted
    obtain ⟨n, more, hparts, htake⟩ := hdotted.takeQualified what hrest
    cases hparts
    have hfull : s.isEmpty = false := List.isEmpty_eq_false_iff.2 (Dialect.transports_iff.1 hs).1
    refine htake.trans ?_
    rw [QualifiedName.ofParts]
    simp only [List.dropLast, Text.join, hfull, List.getLastD]
    rfl

/-- The clean-up keeps the tokens, and they have no place of their own. -/
def Steady (ts : List Token) : Prop := ∀ t ∈ ts, t.widen = t ∧ t.shape = t

theorem steady_nil : Steady [] := fun _ ht => nomatch ht

theorem steady_cons {t : Token} {ts : List Token} (hw : t.widen = t) (hs : t.shape = t)
    (h : Steady ts) : Steady (t :: ts) := by
  intro u hu
  rcases List.mem_cons.1 hu with rfl | hu
  · exact ⟨hw, hs⟩
  · exact h u hu

theorem Steady.append {ts us : List Token} (ht : Steady ts) (hu : Steady us) : Steady (ts ++ us) := by
  intro t h
  rcases List.mem_append.1 h with h | h
  · exact ht t h
  · exact hu t h

theorem Steady.widen {ts : List Token} (h : Steady ts) : ts.map Token.widen = ts :=
  (List.map_congr_left fun t ht => (h t ht).1).trans (List.map_id ts)

theorem Steady.bare {ts : List Token} (h : Steady ts) : TableDialects.bare ts = ts :=
  (List.map_congr_left fun t ht => (h t ht).2).trans (List.map_id ts)

/-! ## Lists that stay together -/

/-- The tokens close every parenthesis that they open. -/
def Closed (ts : List Token) : Prop :=
  ∀ depth us, closeGroup? depth (ts ++ us) =
    (closeGroup? depth us).map fun p => (ts ++ p.1, p.2)

/-- The tokens are not split at a comma. -/
structure Whole (ts : List Token) : Prop where
  closed : Closed ts
  split : ∀ us, groupsFrom [','] 0 (ts ++ us) = (groupsFrom [','] 0 us).modifyHead (ts ++ ·)

theorem Closed.append {ts us : List Token} (ht : Closed ts) (hu : Closed us) :
    Closed (ts ++ us) := by
  intro depth rest
  rw [List.append_assoc, ht, hu]
  cases closeGroup? depth rest with
  | none => rfl
  | some p => simp

theorem closed_token {t : Token} (ho : t.isOpen = false) (hc : t.isClose = false) : Closed [t] := by
  intro depth us
  show closeGroup? depth (t :: us) = _
  rw [closeGroup?.eq_def]
  simp only [ho, hc, Bool.false_eq_true, if_false]
  cases closeGroup? depth us <;> rfl

theorem whole_nil : Whole [] := by
  refine ⟨fun depth us => ?_, fun us => ?_⟩
  · cases h : closeGroup? depth us <;> simp [h]
  · cases h : groupsFrom [','] 0 us <;> simp [h]

theorem Whole.append {ts us : List Token} (ht : Whole ts) (hu : Whole us) : Whole (ts ++ us) := by
  refine ⟨ht.closed.append hu.closed, fun rest => ?_⟩
  rw [List.append_assoc, ht.split, hu.split]
  cases groupsFrom [','] 0 rest <;> simp

theorem whole_token {t : Token} (h : t.kind ≠ .punct) : Whole [t] := by
  have hp : ∀ p, t.isPunct p = false := by
    intro p
    unfold Token.isPunct
    rw [beq_eq_false_iff_ne.2 h]
    rfl
  refine ⟨closed_token (hp _) (hp _), fun us => ?_⟩
  have hturn : t.turn = 0 := by simp [Token.turn, Token.isOpen, Token.isClose, hp]
  show groupsFrom [','] 0 (t :: us) = _
  rw [groupsFrom_cons us (.inl (hp _)), hturn]
  rfl

theorem whole_group {ts : List Token} {o c : Token} (ho : o.isOpen = true) (hc : c.isClose = true)
    (hts : ∀ t ∈ ts, t.isOpen = false ∧ t.isClose = false) : Whole (o :: (ts ++ [c])) := by
  have hco : c.isOpen = false := isPunct_unique hc (by decide)
  have hcomma : o.isPunct [','] = false := isPunct_unique ho (by decide)
  constructor
  · intro depth us
    have hinner : ∀ ts : List Token, (∀ t ∈ ts, t.isOpen = false ∧ t.isClose = false) →
        closeGroup? (depth + 1) (ts ++ c :: us) =
          (closeGroup? depth us).map fun p => (ts ++ c :: p.1, p.2) := by
      intro ts
      induction ts with
      | nil =>
        intro _
        rw [List.nil_append, closeGroup?.eq_def]
        simp only [hco, hc, Bool.false_eq_true, if_false, if_true]
        cases closeGroup? depth us <;> rfl
      | cons t ts ih =>
        intro h
        obtain ⟨ho', hc'⟩ := h t List.mem_cons_self
        rw [List.cons_append, closeGroup?.eq_def]
        simp only [ho', hc', Bool.false_eq_true, if_false]
        rw [ih fun u hu => h u (List.mem_cons_of_mem t hu)]
        cases closeGroup? depth us <;> rfl
    have := hinner ts hts
    simp only [List.cons_append, List.append_assoc, List.nil_append]
    rw [closeGroup?.eq_def]
    simp only [ho, if_true, this]
    cases closeGroup? depth us <;> rfl
  · intro us
    have hopen : o.turn = 1 := by simp [Token.turn, ho]
    have hclose : c.turn = -1 := by simp [Token.turn, hco, hc]
    have hinner : ∀ ts : List Token, (∀ t ∈ ts, t.isOpen = false ∧ t.isClose = false) →
        groupsFrom [','] 1 (ts ++ c :: us) =
          (groupsFrom [','] 0 us).modifyHead fun g => ts ++ c :: g := by
      intro ts
      induction ts with
      | nil =>
        intro _
        rw [List.nil_append, groupsFrom_cons us (.inr (by decide)), hclose]
        rfl
      | cons t ts ih =>
        intro h
        obtain ⟨ho', hc'⟩ := h t List.mem_cons_self
        have hturn : t.turn = 0 := by simp [Token.turn, ho', hc']
        rw [List.cons_append, groupsFrom_cons _ (.inr (by decide)), hturn, Int.add_zero,
          ih fun u hu => h u (List.mem_cons_of_mem t hu)]
        cases groupsFrom [','] 0 us <;> rfl
    have := hinner ts hts
    simp only [List.cons_append, List.append_assoc, List.nil_append]
    rw [groupsFrom_cons _ (.inl hcomma), hopen, show (0 : Int) + 1 = 1 from rfl, this]
    cases groupsFrom [','] 0 us <;> rfl

def joinClauses : List (List Token) → List Token
  | [] => []
  | [c] => c
  | c :: cs => c ++ Token.mark ',' :: joinClauses cs

theorem closed_joinClauses {cs : List (List Token)} (h : ∀ c ∈ cs, Whole c) :
    Closed (joinClauses cs) := by
  have hcomma : Closed [Token.mark ','] := closed_token (by decide) (by decide)
  fun_induction joinClauses cs with
  | case1 => exact whole_nil.closed
  | case2 c => exact (h c List.mem_cons_self).closed
  | case3 c cs hne ih =>
    have hrest := ih fun d hd => h d (List.mem_cons_of_mem c hd)
    exact (h c List.mem_cons_self).closed.append (hcomma.append hrest)

/-- A column section is split into the clauses it was joined from. -/
theorem splitGroups_joinClauses {cs : List (List Token)} (h : ∀ c ∈ cs, Whole c ∧ c ≠ []) :
    splitGroups [','] (joinClauses cs) = cs := by
  have hnil : groupsFrom [','] 0 [] = [[]] := rfl
  have hgroups : cs ≠ [] → groupsFrom [','] 0 (joinClauses cs) = cs := by
    fun_induction joinClauses cs with
    | case1 => exact fun hne => absurd rfl hne
    | case2 c =>
      intro _
      have := (h c List.mem_cons_self).1.split []
      rw [List.append_nil, hnil] at this
      simpa using this
    | case3 c cs hne ih =>
      intro _
      have hcs : cs ≠ [] := fun hcs => hne hcs
      have hrest := ih (fun d hd => h d (List.mem_cons_of_mem c hd)) hcs
      rw [(h c List.mem_cons_self).1.split, groupsFrom]
      rw [if_pos (by decide), hrest]
      simp
  cases cs with
  | nil => rfl
  | cons c cs =>
    unfold splitGroups
    rw [hgroups (List.cons_ne_nil c cs), List.filter_eq_self]
    intro g hg
    simpa using (h g hg).2

/-! ## Lists of names -/

theorem renderBehind_append (ts us : List Token) :
    renderBehind Token.value (ts ++ us) = renderBehind Token.value ts ++ renderBehind Token.value us := by
  induction ts with
  | nil => rfl
  | cons t ts ih => simp [renderBehind, ih]

theorem ReadsAll.append {ts us : List Token} {r : Text}
    (ht : ReadsAll (renderBehind Token.value us ++ r) ts) (hu : ReadsAll r us) : ReadsAll r (ts ++ us) := by
  induction ts with
  | nil => exact hu
  | cons t ts ih =>
    have hread := ht.1
    rw [← List.append_assoc, ← renderBehind_append] at hread
    exact ⟨hread, ih ht.2⟩

theorem joinClauses_cons (c : List Token) (cs : List (List Token)) :
    joinClauses (c :: cs) = c ++ cs.flatMap fun d => Token.mark ',' :: d := by
  induction cs generalizing c with
  | nil => simp [joinClauses]
  | cons d cs ih =>
    rw [joinClauses, ih]
    · rfl
    · exact List.cons_ne_nil d cs

theorem mem_joinClauses {cs : List (List Token)} {t : Token} (h : t ∈ joinClauses cs) :
    t = Token.mark ',' ∨ ∃ c ∈ cs, t ∈ c := by
  cases cs with
  | nil => cases h
  | cons c cs =>
    rw [joinClauses_cons, List.mem_append] at h
    rcases h with h | h
    · exact .inr ⟨c, List.mem_cons_self, h⟩
    · obtain ⟨d, hd, hin⟩ := List.mem_flatMap.1 h
      rcases List.mem_cons.1 hin with h | h
      · exact .inl h
      · exact .inr ⟨d, List.mem_cons_of_mem c hd, h⟩

/-- Names with commas between them, the first one directly behind what stands
before it. -/
def nameTokens (d : Dialect) : List Text → List Token
  | [] => []
  | n :: ns => joinClauses ([(Token.quoted d n).tight] :: ns.map fun m => [Token.quoted d m])

def nameGroup (d : Dialect) (ns : List Text) : List Token :=
  (Token.mark '(').apart :: (nameTokens d ns ++ [Token.mark ')'])

theorem mem_nameTokens {d : Dialect} {ns : List Text} {t : Token} (h : t ∈ nameTokens d ns) :
    t = Token.mark ',' ∨ ∃ n ∈ ns, t = Token.quoted d n ∨ t = (Token.quoted d n).tight := by
  cases ns with
  | nil => cases h
  | cons n ns =>
    rcases mem_joinClauses h with h | ⟨c, hc, hin⟩
    · exact .inl h
    · rcases List.mem_cons.1 hc with rfl | hc
      · exact .inr ⟨n, List.mem_cons_self, .inr (List.mem_singleton.1 hin)⟩
      · obtain ⟨m, hm, rfl⟩ := List.mem_map.1 hc
        exact .inr ⟨m, List.mem_cons_of_mem n hm, .inl (List.mem_singleton.1 hin)⟩

theorem nameTokens_no_parens {d : Dialect} {ns : List Text} :
    ∀ t ∈ nameTokens d ns, t.isOpen = false ∧ t.isClose = false := by
  intro t ht
  rcases mem_nameTokens ht with rfl | ⟨n, -, rfl | rfl⟩
  · decide
  · exact ⟨rfl, rfl⟩
  · exact ⟨rfl, rfl⟩

theorem whole_nameGroup (d : Dialect) (ns : List Text) : Whole (nameGroup d ns) :=
  whole_group (by decide) (by decide) nameTokens_no_parens

theorem steady_nameGroup (d : Dialect) (ns : List Text) : Steady (nameGroup d ns) := by
  refine steady_cons rfl rfl (Steady.append ?_ (steady_cons rfl rfl steady_nil))
  intro t ht
  rcases mem_nameTokens ht with rfl | ⟨n, -, rfl | rfl⟩ <;> exact ⟨rfl, rfl⟩

theorem closed_of_no_parens {ts : List Token} (h : ∀ t ∈ ts, t.isOpen = false ∧ t.isClose = false) :
    Closed ts := by
  induction ts with
  | nil => exact whole_nil.closed
  | cons t ts ih =>
    obtain ⟨ho, hc⟩ := h t List.mem_cons_self
    exact (closed_token ho hc).append (ih fun u hu => h u (List.mem_cons_of_mem t hu))

theorem takeGroup_closed {o c : Token} {ts : List Token} (ho : o.isOpen = true)
    (hc : c.isClose = true) (hts : Closed ts) (rest : List Token) :
    takeGroup (o :: (ts ++ c :: rest)) = .ok (ts, rest) := by
  have hco : c.isOpen = false := isPunct_unique hc (by decide)
  have hclose : closeGroup? 0 (c :: rest) = some ([], rest) := by
    rw [closeGroup?.eq_def]
    simp only [hco, hc, Bool.false_eq_true, if_false, if_true]
  have hgroup := hts 0 (c :: rest)
  rw [hclose, Option.map_some, List.append_nil] at hgroup
  show (if o.isOpen then _ else _ : Reading (List Token)) = _
  rw [if_pos ho, hgroup]

theorem takeColumns_nameGroup {d : Dialect} {ns : List Text} (h : ∀ n ∈ ns, d.transports n = true)
    (rest : List Token) : takeColumns (nameGroup d ns ++ rest) = .ok (ns, rest) := by
  have htake : takeGroup (nameGroup d ns ++ rest) = .ok (nameTokens d ns, rest) := by
    rw [nameGroup, List.cons_append, List.append_assoc]
    exact takeGroup_closed (by decide) (by decide) (closed_of_no_parens nameTokens_no_parens) rest
  -- The reader of one name, whatever its form.
  have hnames : ∀ (f : List Token → Option Text),
      (∀ t ts, f (t :: ts) = if t.isIdentifier then some t.name else none) →
      (splitGroups [','] (nameTokens d ns)).filterMap f = ns := by
    intro f hf
    have hread : ∀ {t : Token} {n : Text}, t.isIdentifier = true → t.name = n → f [t] = some n := by
      intro t n hi hn
      rw [hf, if_pos hi, hn]
    have hquoted : ∀ ns : List Text, (∀ n ∈ ns, d.transports n = true) →
        (ns.map fun m => [Token.quoted d m]).filterMap f = ns := by
      intro ns hns
      induction ns with
      | nil => rfl
      | cons n ns ih =>
        have hn := hns n List.mem_cons_self
        rw [List.map_cons, List.filterMap_cons_some (hread (isIdentifier_quoted hn) (name_quoted hn)),
          ih fun m hm => hns m (List.mem_cons_of_mem n hm)]
    cases ns with
    | nil => rfl
    | cons n ns =>
      have hn := h n List.mem_cons_self
      have hfirst : f [(Token.quoted d n).tight] = some n :=
        hread (isIdentifier_quoted hn) (name_quoted hn)
      rw [nameTokens, splitGroups_joinClauses]
      · rw [List.filterMap_cons_some hfirst,
          hquoted ns fun m hm => h m (List.mem_cons_of_mem n hm)]
      · intro c hc
        have htoken : ∀ {t : Token}, t.kind = .ident → Whole [t] ∧ [t] ≠ [] := fun hk =>
          ⟨whole_token (by rw [hk]; decide), List.cons_ne_nil _ _⟩
        rcases List.mem_cons.1 hc with rfl | hc
        · exact htoken rfl
        · obtain ⟨m, -, rfl⟩ := List.mem_map.1 hc
          exact htoken rfl
  unfold takeColumns
  rw [htake]
  exact congrArg (fun names => Except.ok (names, rest)) (hnames _ fun _ _ => rfl)

theorem renderBehind_nameGroup (d : Dialect) (ns : List Text) :
    renderBehind Token.value (nameGroup d ns) =
      " (".toList ++ Text.join ", " (ns.map d.quote) ++ [')'] := by
  have hrest : ∀ ns : List Text, renderBehind Token.value
      ((ns.map fun m => [Token.quoted d m]).flatMap fun c => Token.mark ',' :: c) =
        (ns.map d.quote).flatMap fun q => ", ".toList ++ q := by
    intro ns
    induction ns with
    | nil => rfl
    | cons n ns ih =>
      rw [List.map_cons, List.flatMap_cons, renderBehind_append, ih]
      simp [renderBehind, Token.mark, Token.quoted]
  have hnames : renderBehind Token.value (nameTokens d ns) = Text.join ", " (ns.map d.quote) := by
    cases ns with
    | nil => rfl
    | cons n ns =>
      rw [nameTokens, joinClauses_cons, renderBehind_append, hrest, List.map_cons, join_cons]
      simp [renderBehind, Token.tight, Token.quoted]
  rw [nameGroup, renderBehind, renderBehind_append, hnames]
  simp [renderBehind, Token.mark, Token.apart]

theorem legible_nameTokens (d : Dialect) {ns : List Text} (h : ∀ n ∈ ns, isPlainName n = true) :
    Legible (nameTokens d ns) := by
  have hrest : ∀ ns : List Text, (∀ n ∈ ns, isPlainName n = true) →
      Legible ((ns.map fun m => [Token.quoted d m]).flatMap fun c => Token.mark ',' :: c) ∧
        Loose ((ns.map fun m => [Token.quoted d m]).flatMap fun c => Token.mark ',' :: c) := by
    intro ns hns
    refine legible_flatMap fun c hc => ?_
    obtain ⟨m, hm, rfl⟩ := List.mem_map.1 hc
    refine ⟨⟨⟨',', by decide, rfl⟩, rfl, printed_quoted d (hns m hm)⟩, fun t ht => ?_⟩
    cases ht
    decide
  cases ns with
  | nil => trivial
  | cons n ns =>
    obtain ⟨hleg, hloose⟩ := hrest ns fun m hm => h m (List.mem_cons_of_mem n hm)
    rw [nameTokens, joinClauses_cons]
    exact Legible.append_loose (printed_quoted d (h n List.mem_cons_self)) hleg hloose

theorem legible_nameGroup (d : Dialect) {ns : List Text} (h : ∀ n ∈ ns, isPlainName n = true) :
    Legible (nameGroup d ns) := by
  have hclose : Legible [Token.mark ')'] := ⟨')', by decide, rfl⟩
  have hinner : Legible (nameTokens d ns ++ [Token.mark ')']) :=
    (legible_nameTokens d h).append_loose hclose fun t ht => by cases ht; decide
  have hopen : Legible [(Token.mark '(').apart] := ⟨'(', by decide, rfl⟩
  refine hopen.append hinner ?_
  intro t ht u hu
  cases ht
  have hu' : u = Token.mark ')' ∨ ∃ n, u = (Token.quoted d n).tight := by
    cases ns with
    | nil =>
      cases hu
      exact .inl rfl
    | cons n ns =>
      rw [nameTokens, joinClauses_cons] at hu
      cases hu
      exact .inr ⟨n, rfl⟩
  rcases hu' with rfl | ⟨n, rfl⟩
  · decide
  · rfl

/-! ## Tokens that are read back -/

/-- The tokens stand apart from what comes before them, and are read as themselves
before whatever ends a word. -/
structure ReadBack (ts : List Token) : Prop where
  apart : ∀ t ∈ ts.head?, t.spaced = true
  reads : ∀ r, Breaks r → ReadsAll r ts

theorem readBack_nil : ReadBack [] := ⟨fun _ ht => (nomatch ht), fun _ _ => trivial⟩

theorem ReadBack.breaks {ts : List Token} (h : ReadBack ts) {r : Text} (hr : Breaks r) :
    Breaks (renderBehind Token.value ts ++ r) := by
  cases ts with
  | nil => exact hr
  | cons t ts =>
    rw [renderBehind, h.apart t rfl]
    exact breaks_cons.2 (by decide)

theorem ReadBack.append {ts us : List Token} (ht : ReadBack ts) (hu : ReadBack us) :
    ReadBack (ts ++ us) := by
  refine ⟨?_, fun r hr => (ht.reads _ (hu.breaks hr)).append (hu.reads r hr)⟩
  cases ts with
  | nil => exact hu.apart
  | cons t ts => exact ht.apart

theorem Breaks.readsToken_quote (d : Dialect) (n : Text) {r : Text} (hr : Breaks r) :
    ReadsToken .ident (d.quote n) r := by
  refine TableDialects.readsToken_quote d n (hr.stops fun c hc => ?_)
  cases d <;> exact ne_of_isBreak (by decide) hc

theorem readBack_quoted (d : Dialect) (n : Text) : ReadBack [Token.quoted d n] :=
  ⟨fun t ht => by cases ht; rfl, fun _ hr => ⟨hr.readsToken_quote d n, trivial⟩⟩

/-- A name in parentheses is read back whatever stands in it, since its quotes
are doubled. -/
theorem readBack_nameGroup (d : Dialect) (ns : List Text) : ReadBack (nameGroup d ns) := by
  have hmark : ∀ {c : Char} {ts : List Token} {r : Text}, c = '(' ∨ c = ')' ∨ c = ',' ∨ c = ';' →
      ReadsToken (Token.mark c).kind (Token.mark c).value (renderBehind Token.value ts ++ r) :=
    fun hc => readsToken_mark hc _
  -- From the comma behind a name on, the text goes on with a comma or the closing parenthesis.
  have hmore : ∀ (ns : List Text) (r : Text),
      let ts := ((ns.map fun m => [Token.quoted d m]).flatMap fun c => Token.mark ',' :: c) ++ [Token.mark ')']
      ReadsAll r ts ∧ Breaks (renderBehind Token.value ts ++ r) := by
    intro ns r
    induction ns with
    | nil => exact ⟨⟨hmark (by decide), trivial⟩, breaks_cons.2 (by decide)⟩
    | cons n ns ih =>
      refine ⟨⟨hmark (by decide), ?_, ih.1⟩, breaks_cons.2 (by decide)⟩
      exact ih.2.readsToken_quote d n
  refine ⟨fun t ht => by cases ht; rfl, fun r _ => ⟨hmark (by decide), ?_⟩⟩
  cases ns with
  | nil => exact ⟨hmark (by decide), trivial⟩
  | cons n ns =>
    rw [nameTokens, joinClauses_cons]
    exact ⟨(hmore ns r).2.readsToken_quote d n, (hmore ns r).1⟩

theorem readBack_qualifiedTokens (d : Dialect) (q : QualifiedName) : ReadBack (qualifiedTokens d q) := by
  obtain ⟨schema, name⟩ := q
  cases schema with
  | none => exact readBack_quoted d name
  | some s =>
    refine ⟨fun t ht => by cases ht; rfl, fun r hr => ⟨?_, ?_, hr.readsToken_quote d name, trivial⟩⟩
    · refine readsToken_quote d s (stops_cons.2 ?_)
      cases d <;> decide
    · refine readsToken_punct (by decide) fun _ => ?_
      show Stops Text.isDigit (d.quote name ++ r)
      cases d <;> exact stops_cons.2 (by decide)

end TableDialects
