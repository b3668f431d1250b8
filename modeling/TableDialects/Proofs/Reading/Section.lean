import TableDialects.Proofs.Reading.Statement

/- The column section of a statement. A statement is located by its tokens alone:
   CREATE TABLE and a name (`Heading`), then an opening parenthesis that some
   later one closes (`OpensSection`). The reader finds a section in exactly these
   statements, and the section lies between the two matching parentheses, so that
   its clauses are balanced and hold all of its tokens but the commas between
   them (`Section.locate_exact`). -/
namespace TableDialects

/-! ## Parentheses -/

theorem depthAfter_cons (depth : Int) (t : Token) (ts : List Token) :
    depthAfter depth (t :: ts) = depthAfter (depth + t.turn) ts := rfl

theorem depthAfter_append (depth : Int) (ts us : List Token) :
    depthAfter depth (ts ++ us) = depthAfter (depthAfter depth ts) us := List.foldl_append

theorem depthAfter_add (depth : Int) (ts : List Token) :
    depthAfter depth ts = depth + depthAfter 0 ts := by
  induction ts generalizing depth with
  | nil => exact (Int.add_zero depth).symm
  | cons t ts ih =>
    rw [depthAfter_cons, depthAfter_cons, ih, ih (0 + t.turn)]
    omega

/-- Where the depth never falls below zero, it is not below zero behind any
part. -/
theorem depthAfter_nonneg {depth : Int} {ts us : List Token} (hd : 0 ≤ depth)
    (h : staysOpen depth (ts ++ us) = true) : 0 ≤ depthAfter depth ts := by
  induction ts generalizing depth with
  | nil => exact hd
  | cons t ts ih =>
    rw [List.cons_append, staysOpen, Bool.and_eq_true, decide_eq_true_eq] at h
    exact ih h.1 h.2

theorem turn_of_isOpen {t : Token} (h : t.isOpen = true) : t.turn = 1 := by
  rw [Token.turn, if_pos h]

theorem turn_of_isClose {t : Token} (h : t.isClose = true) : t.turn = -1 := by
  have hopen : t.isOpen = false := isPunct_unique h (by decide)
  rw [Token.turn, hopen, if_neg Bool.false_ne_true, if_pos h]

theorem turn_of_neither {t : Token} (ho : ¬ t.isOpen = true) (hc : ¬ t.isClose = true) :
    t.turn = 0 := by
  rw [Token.turn, if_neg ho, if_neg hc]

theorem turn_of_kind {t : Token} (h : t.kind ≠ .punct) : t.turn = 0 := by
  apply turn_of_neither <;> simp [Token.isOpen, Token.isClose, Token.isPunct, h]

/-- The tokens of a group, counted from the depth they start at, never close more
than is open and close all of it, and the group ends with a closing
parenthesis. -/
theorem closeGroup?_balanced {depth : Nat} {ts inner behind : List Token}
    (h : closeGroup? depth ts = some (inner, behind)) :
    staysOpen depth inner = true ∧ depthAfter depth inner = 0 ∧
      ∃ close, close.isClose = true ∧ ts = inner ++ close :: behind := by
  -- A token that goes inside the group, whatever its turn leaves open.
  have hstep : ∀ {t : Token} {more : List Token} {depth depth' : Nat},
      (depth : Int) + t.turn = depth' →
      staysOpen depth' more = true ∧ depthAfter depth' more = 0 →
      staysOpen depth (t :: more) = true ∧ depthAfter depth (t :: more) = 0 := by
    rintro t more depth depth' hturn ⟨hstays, hafter⟩
    rw [staysOpen, depthAfter_cons, hturn, hstays, Bool.and_true, decide_eq_true_eq]
    exact ⟨Int.natCast_nonneg depth', hafter⟩
  fun_induction closeGroup? depth ts generalizing inner behind with
  | case1 => cases h
  | case2 depth t ts ht more rest hsome ih =>
    cases h
    obtain ⟨hstays, hafter, close, hclose, rfl⟩ := ih hsome
    have hturn : (depth : Int) + t.turn = (depth + 1 : Nat) := by rw [turn_of_isOpen ht]; rfl
    obtain ⟨hstays, hafter⟩ := hstep hturn ⟨hstays, hafter⟩
    exact ⟨hstays, hafter, close, hclose, rfl⟩
  | case3 => cases h
  | case4 t ts ht hc =>
    cases h
    exact ⟨rfl, rfl, t, hc, rfl⟩
  | case5 t ts ht hc depth more rest hsome ih =>
    cases h
    obtain ⟨hstays, hafter, close, hclose, rfl⟩ := ih hsome
    have hturn : ((depth + 1 : Nat) : Int) + t.turn = depth := by rw [turn_of_isClose hc]; omega
    obtain ⟨hstays, hafter⟩ := hstep hturn ⟨hstays, hafter⟩
    exact ⟨hstays, hafter, close, hclose, rfl⟩
  | case6 => cases h
  | case7 depth t ts ht hc more rest hsome ih =>
    cases h
    obtain ⟨hstays, hafter, close, hclose, rfl⟩ := ih hsome
    have hturn : (depth : Int) + t.turn = depth := by rw [turn_of_neither ht hc]; omega
    obtain ⟨hstays, hafter⟩ := hstep hturn ⟨hstays, hafter⟩
    exact ⟨hstays, hafter, close, hclose, rfl⟩
  | case8 => cases h

/-- A group that is never closed never closes more than is open. -/
theorem staysOpen_of_unclosed {depth : Nat} {ts : List Token} (h : closeGroup? depth ts = none) :
    staysOpen depth ts = true := by
  have hstep : ∀ {t : Token} {more : List Token} {depth depth' : Nat},
      (depth : Int) + t.turn = depth' → staysOpen depth' more = true →
      staysOpen depth (t :: more) = true := by
    intro t more depth depth' hturn hstays
    rw [staysOpen, hturn, hstays, Bool.and_true, decide_eq_true_eq]
    exact Int.natCast_nonneg depth'
  fun_induction closeGroup? depth ts with
  | case1 => rfl
  | case2 => cases h
  | case3 depth t ts ht hnone ih =>
    exact hstep (by rw [turn_of_isOpen ht]; rfl) (ih hnone)
  | case4 => cases h
  | case5 => cases h
  | case6 t ts ht hc depth hnone ih =>
    exact hstep (by rw [turn_of_isClose hc]; omega) (ih hnone)
  | case7 => cases h
  | case8 depth t ts ht hc hnone ih =>
    exact hstep (by rw [turn_of_neither ht hc]; omega) (ih hnone)

/-- A parenthesis that brings the depth back to zero closes the group. -/
theorem closeGroup?_isSome {inner : List Token} {close : Token} (behind : List Token)
    (h : depthAfter 1 (inner ++ [close]) = 0) :
    ∃ p, closeGroup? 0 (inner ++ close :: behind) = some p := by
  cases hgroup : closeGroup? 0 (inner ++ close :: behind) with
  | some p => exact ⟨p, rfl⟩
  | none =>
    have hstays := staysOpen_of_unclosed hgroup
    rw [List.append_cons] at hstays
    have hnonneg := depthAfter_nonneg (Int.le_refl 0) hstays
    rw [depthAfter_add] at h
    omega

/-! ## The heading of a statement -/

/-- The tokens are the keywords, in order. -/
def Spells : List String → List Token → Prop
  | [], [] => True
  | w :: ws, t :: ts => t.isWord w = true ∧ Spells ws ts
  | _, _ => False

theorem Spells.cons {w : String} {ws : List String} {ts : List Token} (h : Spells (w :: ws) ts) :
    ∃ t more, ts = t :: more ∧ t.isWord w = true ∧ Spells ws more := by
  cases ts with
  | nil => exact absurd h id
  | cons t more => exact ⟨t, more, rfl, h.1, h.2⟩

theorem Spells.nil {ts : List Token} (h : Spells [] ts) : ts = [] := by
  cases ts with
  | nil => rfl
  | cons t ts => exact absurd h id

theorem afterWords?_spelled {words : List String} {front : List Token} (h : Spells words front)
    (rest : List Token) : afterWords? words (front ++ rest) = some rest := by
  have hstarts : startsWithWords (words.map String.toList) (front ++ rest) = true ∧
      front.length = words.length := by
    induction words generalizing front with
    | nil =>
      cases front with
      | nil => exact ⟨rfl, rfl⟩
      | cons t front => exact absurd h id
    | cons w words ih =>
      cases front with
      | nil => exact absurd h id
      | cons t front =>
        obtain ⟨hw, hrest⟩ := h
        obtain ⟨hstarts, hlength⟩ := ih hrest
        refine ⟨?_, congrArg Nat.succ hlength⟩
        rw [List.map_cons, List.cons_append, startsWithWords, hw, hstarts]
        rfl
  rw [afterWords?, if_pos hstarts.1, ← hstarts.2, List.drop_left]

theorem spells_of_afterWords? {words : List String} {ts rest : List Token}
    (h : afterWords? words ts = some rest) : ∃ front, Spells words front ∧ ts = front ++ rest := by
  unfold afterWords? at h
  split at h
  · rename_i hstarts
    cases h
    induction words generalizing ts with
    | nil => exact ⟨[], trivial, rfl⟩
    | cons w words ih =>
      cases ts with
      | nil => cases hstarts
      | cons t ts =>
        rw [List.map_cons, startsWithWords, Bool.and_eq_true] at hstarts
        obtain ⟨front, hfront, hts⟩ := ih hstarts.2
        exact ⟨t :: front, ⟨hstarts.1, hfront⟩, congrArg (t :: ·) hts⟩
  · cases h

theorem afterWords?_other {w : String} {words : List String} {t : Token} {ts : List Token}
    (h : t.isWord w = false) : afterWords? (w :: words) (t :: ts) = none := by
  rw [afterWords?, List.map_cons, startsWithWords, h]
  rfl

theorem isWord_iff {t : Token} {w : Text} : t.isWord w = true ↔ t.kind = .word ∧ Text.upper t.value = w := by
  rw [Token.isWord, Bool.and_eq_true, beq_iff_eq, beq_iff_eq]
  rfl

theorem isWord_unique {t : Token} {v w : Text} (h : t.isWord v = true) (hne : v ≠ w) :
    t.isWord w = false := by
  unfold Token.isWord at *
  rw [Bool.and_eq_true, beq_iff_eq, beq_iff_eq] at h
  rw [h.2, beq_eq_false_iff_ne.2 hne, Bool.and_false]

theorem isWord_of_isPunct {t : Token} {p : Text} (h : t.isPunct p = true) (w : Text) :
    t.isWord w = false := by
  unfold Token.isPunct at h
  rw [Bool.and_eq_true, beq_iff_eq] at h
  rw [Token.isWord, h.1]
  rfl

/-- Identifiers with points between them, and the names that they stand for. -/
inductive Dotted : List Text → List Token → Prop
  | last {t : Token} (ht : t.isIdentifier = true) : Dotted [t.name] [t]
  | more {t dot : Token} {ns : List Text} {ts : List Token} (ht : t.isIdentifier = true)
    (hdot : dot.isPunct ['.'] = true) (h : Dotted ns ts) : Dotted (t.name :: ns) (t :: dot :: ts)

theorem takeDotted_stop (what : Text) {rest : List Token} (h : startsWithPunct ['.'] rest = false) :
    takeDotted what rest = .ok ([], rest) := by
  cases rest with
  | nil => rfl
  | cons t rest =>
    rw [takeDotted.eq_def]
    dsimp only
    rw [show t.isPunct ['.'] = false from h, if_neg Bool.false_ne_true]

theorem Dotted.takeQualified (what : Text) {ns : List Text} {ts rest : List Token} (h : Dotted ns ts)
    (hrest : startsWithPunct ['.'] rest = false) :
    ∃ n more, ns = n :: more ∧
      TableDialects.takeQualified what (ts ++ rest) = .ok (.ofParts n more, rest) := by
  -- The parts behind the first are taken as they are written.
  have hparts : ∃ t more tail, ts = t :: tail ∧ ns = t.name :: more ∧ t.isIdentifier = true ∧
      takeDotted what (tail ++ rest) = .ok (more, rest) := by
    induction h with
    | @last t ht => exact ⟨t, [], [], rfl, rfl, ht, takeDotted_stop what hrest⟩
    | @more t dot ns ts ht hdot h ih =>
      obtain ⟨u, more, tail, rfl, rfl, hu, htail⟩ := ih
      refine ⟨t, u.name :: more, dot :: u :: tail, rfl, rfl, ht, ?_⟩
      rw [List.cons_append, List.cons_append, takeDotted.eq_def]
      dsimp only
      rw [if_pos hdot, if_pos hu, htail]
  obtain ⟨t, more, tail, rfl, rfl, ht, htail⟩ := hparts
  refine ⟨t.name, more, rfl, ?_⟩
  rw [List.cons_append, TableDialects.takeQualified, takeName, if_pos ht]
  dsimp only
  rw [htail]

theorem dotted_of_takeDotted {what : Text} {t : Token} {ts rest : List Token} {more : List Text}
    (ht : t.isIdentifier = true) (h : takeDotted what ts = .ok (more, rest)) :
    ∃ front, Dotted (t.name :: more) (t :: front) ∧ ts = front ++ rest := by
  fun_induction takeDotted what ts generalizing t more rest with
  | case1 => cases h; exact ⟨[], .last ht, rfl⟩
  | case2 => cases h
  | case3 dot hdot u ts hu names left hmore ih =>
    cases h
    obtain ⟨front, hfront, hts⟩ := ih hu hmore
    exact ⟨dot :: u :: front, .more ht hdot hfront, congrArg (dot :: u :: ·) hts⟩
  | case4 => cases h
  | case5 => cases h
  | case6 => cases h; exact ⟨[], .last ht, rfl⟩

theorem dotted_of_takeQualified {what : Text} {ts rest : List Token} {q : QualifiedName}
    (h : takeQualified what ts = .ok (q, rest)) :
    ∃ n more front, Dotted (n :: more) front ∧ q = .ofParts n more ∧ ts = front ++ rest := by
  cases ts with
  | nil => cases h
  | cons t ts =>
    rw [takeQualified, takeName] at h
    by_cases ht : t.isIdentifier = true
    · rw [if_pos ht] at h
      dsimp only at h
      cases hmore : takeDotted what ts with
      | error e => rw [hmore] at h; cases h
      | ok p =>
        obtain ⟨more, left⟩ := p
        rw [hmore] at h
        cases h
        obtain ⟨front, hfront, hts⟩ := dotted_of_takeDotted ht hmore
        exact ⟨t.name, more, t :: front, hfront, rfl, congrArg (t :: ·) hts⟩
    · rw [if_neg ht] at h
      cases h

/-- The start of a statement, up to its column section: whatever stands before
the first CREATE, then CREATE TABLE with what may stand between and behind these
keywords, and the name of the table. -/
structure Heading where
  lead : List Token
  create : Token
  temporary : List Token
  table : Token
  guard : List Token
  name : List Token
  names : List Text
  lead_other : ∀ t ∈ lead, t.isWord "CREATE" = false
  create_word : create.isWord "CREATE" = true
  temporary_words : temporary = [] ∨ Spells ["TEMPORARY"] temporary ∨ Spells ["TEMP"] temporary
  table_word : table.isWord "TABLE" = true
  guard_words : guard = [] ∨ Spells ["IF", "NOT", "EXISTS"] guard
  name_dotted : Dotted names name
  last_full : ∀ n ∈ names.getLast?, n ≠ []

def Heading.tokens (h : Heading) : List Token :=
  h.lead ++ h.create :: (h.temporary ++ h.table :: (h.guard ++ h.name))

/-- The tokens read as a heading, an opening parenthesis and, later, a closing one
that brings the depth back to zero. -/
def OpensSection (ts : List Token) : Prop :=
  ∃ (h : Heading) (opening : Token) (inner : List Token) (closing : Token) (behind : List Token),
    ts = h.tokens ++ opening :: (inner ++ closing :: behind) ∧ opening.isOpen = true ∧
      closing.isClose = true ∧ depthAfter 1 (inner ++ [closing]) = 0

theorem afterCreate?_eq_some_iff {ts rest : List Token} :
    afterCreate? ts = some rest ↔ ∃ lead create, (∀ t ∈ lead, t.isWord "CREATE" = false) ∧
      create.isWord "CREATE" = true ∧ ts = lead ++ create :: rest := by
  induction ts with
  | nil =>
    constructor
    · intro h
      cases h
    · rintro ⟨lead, create, -, -, h⟩
      exact absurd h (by simp)
  | cons t ts ih =>
    by_cases ht : t.isWord "CREATE" = true
    · rw [afterCreate?, if_pos ht]
      constructor
      · intro h
        cases h
        exact ⟨[], t, fun _ hin => absurd hin List.not_mem_nil, ht, rfl⟩
      · rintro ⟨lead, create, hlead, -, h⟩
        cases lead with
        | nil => cases h; rfl
        | cons u lead =>
          cases h
          exact absurd ht (Bool.eq_false_iff.1 (hlead t List.mem_cons_self))
    · rw [afterCreate?, if_neg ht, ih]
      constructor
      · rintro ⟨lead, create, hlead, hcreate, rfl⟩
        refine ⟨t :: lead, create, fun u hu => ?_, hcreate, rfl⟩
        rcases List.mem_cons.1 hu with rfl | hu
        · simpa using ht
        · exact hlead u hu
      · rintro ⟨lead, create, hlead, hcreate, h⟩
        cases lead with
        | nil =>
          cases h
          exact absurd hcreate ht
        | cons u lead =>
          cases h
          exact ⟨lead, create, fun u hu => hlead u (List.mem_cons_of_mem t hu), hcreate, rfl⟩

/-- The keyword for a temporary table is taken, and nothing else. -/
theorem takeTemporary_of_words {front : List Token} {t : Token} {rest : List Token}
    (h : front = [] ∨ Spells ["TEMPORARY"] front ∨ Spells ["TEMP"] front)
    (ht : t.isWord "TABLE" = true) : (takeTemporary (front ++ t :: rest)).2 = t :: rest := by
  rcases h with rfl | h | h
  · rw [List.nil_append, takeTemporary, afterWords?_other (isWord_unique ht (by decide)),
      afterWords?_other (isWord_unique ht (by decide))]
  · rw [takeTemporary, afterWords?_spelled h]
  · obtain ⟨u, rfl, hu⟩ : ∃ u, front = [u] ∧ u.isWord "TEMP" = true := by
      match front, h with
      | [u], h => exact ⟨u, rfl, h.1⟩
    rw [takeTemporary, afterWords?_spelled h, List.singleton_append,
      afterWords?_other (isWord_unique hu (by decide))]

theorem Spells.ne_nil {w : String} {words : List String} {ts : List Token}
    (h : Spells (w :: words) ts) : ts.isEmpty = false := by
  cases ts with
  | nil => exact absurd h id
  | cons t ts => rfl

theorem words_of_takeTemporary (ts : List Token) :
    ∃ front, (front = [] ∨ Spells ["TEMPORARY"] front ∨ Spells ["TEMP"] front) ∧
      (takeTemporary ts).1 = !front.isEmpty ∧ ts = front ++ (takeTemporary ts).2 := by
  unfold takeTemporary
  split
  · obtain ⟨front, hfront, hts⟩ := spells_of_afterWords? ‹_›
    exact ⟨front, .inr (.inl hfront), by rw [hfront.ne_nil]; rfl, hts⟩
  · split
    · obtain ⟨front, hfront, hts⟩ := spells_of_afterWords? ‹_›
      exact ⟨front, .inr (.inr hfront), by rw [hfront.ne_nil]; rfl, hts⟩
    · exact ⟨[], .inl rfl, rfl, rfl⟩

/-- The keywords IF NOT EXISTS are taken, and no part of the name behind them: a
name goes on with a mark. -/
theorem takeIfNotExists_of_words {front name : List Token} {names : List Text} {t : Token}
    {rest : List Token} (h : front = [] ∨ Spells ["IF", "NOT", "EXISTS"] front)
    (hname : Dotted names name) (ht : t.isOpen = true) :
    (takeIfNotExists (front ++ (name ++ t :: rest))).2 = name ++ t :: rest := by
  rcases h with rfl | h
  · have hmark : ∃ u v tail, name ++ t :: rest = u :: v :: tail ∧ v.isWord "NOT" = false := by
      cases hname with
      | @last u => exact ⟨u, t, rest, rfl, isWord_of_isPunct ht _⟩
      | @more u dot ns ts _ hdot => exact ⟨u, dot, ts ++ t :: rest, rfl, isWord_of_isPunct hdot _⟩
    obtain ⟨u, v, tail, hts, hv⟩ := hmark
    have hnone : afterWords? ["IF", "NOT", "EXISTS"] (u :: v :: tail) = none := by
      rw [afterWords?, List.map_cons, List.map_cons, startsWithWords, startsWithWords, hv,
        Bool.false_and, Bool.and_false]
      rfl
    rw [List.nil_append, hts, takeIfNotExists, hnone]
  · rw [takeIfNotExists, afterWords?_spelled h]

theorem words_of_takeIfNotExists (ts : List Token) :
    ∃ front, (front = [] ∨ Spells ["IF", "NOT", "EXISTS"] front) ∧
      (takeIfNotExists ts).1 = !front.isEmpty ∧ ts = front ++ (takeIfNotExists ts).2 := by
  unfold takeIfNotExists
  split
  · obtain ⟨front, hfront, hts⟩ := spells_of_afterWords? ‹_›
    exact ⟨front, .inr hfront, by rw [hfront.ne_nil]; rfl, hts⟩
  · exact ⟨[], .inl rfl, rfl, rfl⟩

theorem QualifiedName.name_ofParts (n : Text) (more : List Text) :
    (n :: more).getLast? = some (QualifiedName.ofParts n more).name := by
  rw [QualifiedName.ofParts, List.getLastD_eq_getLast?, List.getLast?_eq_some_getLast (List.cons_ne_nil n more)]
  rfl

/-- Behind a heading and an opening parenthesis, a section is found if the
parenthesis is closed. -/
theorem Heading.locate (h : Heading) {sql : Text} {opening : Token} {rest : List Token}
    (hts : tokenize sql = h.tokens ++ opening :: rest) (hopen : opening.isOpen = true) {stop : Nat}
    (hstop : closingPlace? 0 rest = some stop) : ∃ s, Section.locate sql = .ok s := by
  have hcreate : afterCreate? (tokenize sql) =
      some (h.temporary ++ h.table :: (h.guard ++ (h.name ++ opening :: rest))) := by
    rw [afterCreate?_eq_some_iff]
    refine ⟨h.lead, h.create, h.lead_other, h.create_word, ?_⟩
    rw [hts, tokens]
    simp only [List.append_assoc, List.cons_append]
  have hkeyword : Spells ["TABLE"] [h.table] := ⟨h.table_word, trivial⟩
  have htable : afterWords? ["TABLE"] (h.table :: (h.guard ++ (h.name ++ opening :: rest))) =
      some (h.guard ++ (h.name ++ opening :: rest)) := afterWords?_spelled hkeyword _
  have hdot : startsWithPunct ['.'] (opening :: rest) = false := isPunct_unique hopen (by decide)
  obtain ⟨n, more, hnames, hname⟩ := h.name_dotted.takeQualified "table name" hdot
  have hfull : (QualifiedName.ofParts n more).name.isEmpty = false := by
    rw [List.isEmpty_eq_false_iff]
    refine h.last_full _ ?_
    rw [hnames]
    exact QualifiedName.name_ofParts n more
  unfold Section.locate
  rw [hcreate]
  dsimp only
  rw [takeTemporary_of_words h.temporary_words h.table_word, htable]
  dsimp only
  rw [takeIfNotExists_of_words h.guard_words h.name_dotted hopen, hname]
  dsimp only
  rw [hfull, if_neg Bool.false_ne_true, if_pos hopen, hstop]
  exact ⟨_, rfl⟩

/-- Where a section is found, the tokens before it are a heading that says what
the section says of the table. -/
theorem Section.heading_of_locate {sql : Text} {s : Section} (hs : Section.locate sql = .ok s) :
    ∃ (h : Heading) (opening : Token) (rest : List Token),
      tokenize sql = h.tokens ++ opening :: rest ∧ opening.isOpen = true ∧
        s.start = opening.stop ∧ closingPlace? 0 rest = some s.stop ∧
        h.names.getLast? = some s.table.name ∧ s.temporary = !h.temporary.isEmpty ∧
        s.ifNotExists = !h.guard.isEmpty := by
  unfold Section.locate at hs
  cases hcreate : afterCreate? (tokenize sql) with
  | none => rw [hcreate] at hs; cases hs
  | some rest₁ =>
  rw [hcreate] at hs
  dsimp only at hs
  cases htable : afterWords? ["TABLE"] (takeTemporary rest₁).2 with
  | none => rw [htable] at hs; cases hs
  | some rest₂ =>
  rw [htable] at hs
  dsimp only at hs
  cases hname : takeQualified "table name" (takeIfNotExists rest₂).2 with
  | error e => rw [hname] at hs; cases hs
  | ok p =>
  obtain ⟨q, rest₃⟩ := p
  rw [hname] at hs
  dsimp only at hs
  by_cases hempty : q.name.isEmpty = true
  · rw [if_pos hempty] at hs; cases hs
  rw [if_neg hempty] at hs
  cases rest₃ with
  | nil => cases hs
  | cons opening rest =>
  dsimp only at hs
  by_cases hopen : opening.isOpen = true
  · rw [if_pos hopen] at hs
    cases hstop : closingPlace? 0 rest with
    | none => rw [hstop] at hs; cases hs
    | some stop =>
      rw [hstop] at hs
      cases hs
      obtain ⟨lead, create, hlead, hword, hts⟩ := afterCreate?_eq_some_iff.1 hcreate
      obtain ⟨temporary, htemporary, hflag, hrest₁⟩ := words_of_takeTemporary rest₁
      obtain ⟨table, htableWord, hrest₂⟩ := spells_of_afterWords? htable
      obtain ⟨t, rfl⟩ : ∃ t, table = [t] := by
        match table, htableWord with
        | [t], _ => exact ⟨t, rfl⟩
      obtain ⟨guard, hguard, hguarded, hrest₂'⟩ := words_of_takeIfNotExists rest₂
      obtain ⟨n, more, name, hdotted, rfl, hrest₃⟩ := dotted_of_takeQualified hname
      have hlast := QualifiedName.name_ofParts n more
      refine ⟨⟨lead, create, temporary, t, guard, name, n :: more, hlead, hword, htemporary,
        htableWord.1, hguard, hdotted, ?_⟩, opening, rest, ?_, hopen, rfl, hstop, hlast, hflag, hguarded⟩
      · rintro m hm rfl
        rw [hlast] at hm
        rw [Option.some.inj hm] at hempty
        exact hempty rfl
      · rw [hts, hrest₁, hrest₂, hrest₂', hrest₃, Heading.tokens]
        simp only [List.append_assoc, List.cons_append, List.nil_append]
  · rw [if_neg hopen] at hs
    cases hs

/-! ## Clauses -/

/-- The tokens without the commas outside all parentheses, counted from
`depth`. -/
def withoutCommas : Int → List Token → List Token
  | _, [] => []
  | depth, t :: rest =>
    if t.isPunct [','] && depth == 0 then withoutCommas depth rest
    else t :: withoutCommas (depth + t.turn) rest

/-- The tokens hold no comma outside all parentheses, counted from `depth`. -/
def CommaFree (depth : Int) (ts : List Token) : Prop :=
  ∀ before t behind, ts = before ++ t :: behind → depthAfter depth before = 0 →
    t.isPunct [','] = false

theorem groupsFrom_comma {t : Token} (ht : t.isPunct [','] = true) (us : List Token) :
    groupsFrom [','] 0 (t :: us) = [] :: groupsFrom [','] 0 us := by
  have hopen : t.isOpen = false := isPunct_unique ht (by decide)
  have hclose : t.isClose = false := isPunct_unique ht (by decide)
  rw [groupsFrom, hopen, hclose, ht]
  rfl

theorem commaFree_nil (depth : Int) : CommaFree depth [] := by
  intro before t behind h
  exact absurd h.symm (by simp)

theorem CommaFree.cons {depth : Int} {t : Token} {ts : List Token}
    (ht : t.isPunct [','] = false ∨ depth ≠ 0) (h : CommaFree (depth + t.turn) ts) :
    CommaFree depth (t :: ts) := by
  intro before u behind hsplit hdepth
  cases before with
  | nil =>
    cases hsplit
    exact ht.resolve_right fun hne => hne hdepth
  | cons v before =>
    cases hsplit
    exact h before u behind rfl hdepth

/-- The groups of balanced tokens are balanced and hold no comma of their own;
the first one goes on from `depth`. Together they are the tokens without the
commas between them. -/
theorem groupsFrom_balanced {depth : Int} {ts : List Token} (hstays : staysOpen depth ts = true)
    (hafter : depthAfter depth ts = 0) :
    ∃ group groups, groupsFrom [','] depth ts = group :: groups ∧
      (staysOpen depth group = true ∧ depthAfter depth group = 0 ∧ CommaFree depth group) ∧
      (∀ g ∈ groups, Balanced g ∧ CommaFree 0 g) ∧
      (group :: groups).flatten = withoutCommas depth ts := by
  induction ts generalizing depth with
  | nil =>
    exact ⟨[], [], rfl, ⟨rfl, hafter, commaFree_nil depth⟩, fun _ hg => absurd hg List.not_mem_nil, rfl⟩
  | cons t ts ih =>
    have hboth := hstays
    rw [staysOpen, Bool.and_eq_true, decide_eq_true_eq] at hboth
    obtain ⟨group, groups, hgroups, ⟨hopen, hzero, hfree⟩, hrest, hflat⟩ := ih hboth.2 hafter
    by_cases hcut : t.isPunct [','] = true ∧ depth = 0
    · obtain ⟨ht, rfl⟩ := hcut
      have hturn : t.turn = 0 := by
        have hopen : t.isOpen = false := isPunct_unique ht (by decide)
        have hclose : t.isClose = false := isPunct_unique ht (by decide)
        exact turn_of_neither (Bool.eq_false_iff.1 hopen) (Bool.eq_false_iff.1 hclose)
      rw [hturn] at hopen hzero hfree hgroups hflat
      refine ⟨[], group :: groups, ?_, ⟨rfl, rfl, commaFree_nil 0⟩, fun g hg => ?_, ?_⟩
      · rw [groupsFrom_comma ht]
        exact congrArg _ hgroups
      · rcases List.mem_cons.1 hg with rfl | hg
        · exact ⟨⟨hopen, hzero⟩, hfree⟩
        · exact hrest g hg
      · rw [withoutCommas, if_pos (by rw [ht]; rfl), List.flatten_cons, List.nil_append, hflat]
        rfl
    · have hkeep : t.isPunct [','] = false ∨ depth ≠ 0 := by
        by_cases ht : t.isPunct [','] = true
        · exact .inr fun hd => hcut ⟨ht, hd⟩
        · exact .inl (Bool.eq_false_iff.2 ht)
      refine ⟨t :: group, groups, ?_, ⟨?_, hzero, hfree.cons hkeep⟩, hrest, ?_⟩
      · rw [groupsFrom_cons ts hkeep, hgroups]
        rfl
      · rw [staysOpen, hopen, Bool.and_true, decide_eq_true_eq]
        exact hboth.1
      · have hif : (t.isPunct [','] && depth == 0) = false := by
          rcases hkeep with ht | hd
          · rw [ht, Bool.false_and]
          · rw [beq_eq_false_iff_ne.2 hd, Bool.and_false]
        rw [withoutCommas, hif, if_neg Bool.false_ne_true, ← hflat]
        rfl

/-- Each group of balanced tokens is balanced and holds no comma of its own, and
together they are the tokens without the commas between them. -/
theorem splitGroups_balanced {ts : List Token} (h : Balanced ts) :
    (∀ g ∈ splitGroups [','] ts, g ≠ [] ∧ Balanced g ∧ CommaFree 0 g) ∧
      (splitGroups [','] ts).flatten = withoutCommas 0 ts := by
  obtain ⟨group, groups, hgroups, ⟨hopen, hzero, hfree⟩, hrest, hflat⟩ :=
    groupsFrom_balanced h.1 h.2
  constructor
  · intro g hg
    refine ⟨(mem_splitGroups hg).1, ?_⟩
    have hin := (List.mem_filter.1 hg).1
    rw [hgroups] at hin
    rcases List.mem_cons.1 hin with rfl | hin
    · exact ⟨⟨hopen, hzero⟩, hfree⟩
    · exact hrest g hin
  · rw [splitGroups, List.flatten_filter_not_isEmpty, hgroups, hflat]

/-! ## What tokens say decides their depth -/

theorem isPunct_of_word {t u : Token} (h : t.word = u.word) (p : Text) : t.isPunct p = u.isPunct p := by
  obtain ⟨hkind, hvalue⟩ := Prod.mk.inj h
  rw [Token.isPunct, Token.isPunct, hkind, hvalue]

theorem turn_of_word {t u : Token} (h : t.word = u.word) : t.turn = u.turn := by
  rw [Token.turn, Token.turn, Token.isOpen, Token.isOpen, Token.isClose, Token.isClose,
    isPunct_of_word h, isPunct_of_word h]

theorem depthAfter_of_words {ts us : List Token} (h : ts.map Token.word = us.map Token.word)
    (depth : Int) : depthAfter depth ts = depthAfter depth us := by
  induction ts generalizing us depth with
  | nil =>
    cases us with
    | nil => rfl
    | cons u us => cases h
  | cons t ts ih =>
    cases us with
    | nil => cases h
    | cons u us =>
      obtain ⟨hword, hwords⟩ := List.cons.inj h
      rw [depthAfter_cons, depthAfter_cons, turn_of_word hword, ih hwords]

theorem staysOpen_of_words {ts us : List Token} (h : ts.map Token.word = us.map Token.word)
    (depth : Int) : staysOpen depth ts = staysOpen depth us := by
  induction ts generalizing us depth with
  | nil =>
    cases us with
    | nil => rfl
    | cons u us => cases h
  | cons t ts ih =>
    cases us with
    | nil => cases h
    | cons u us =>
      obtain ⟨hword, hwords⟩ := List.cons.inj h
      rw [staysOpen, staysOpen, turn_of_word hword, ih hwords]

theorem Balanced.of_words {ts us : List Token} (h : ts.map Token.word = us.map Token.word)
    (ht : Balanced ts) : Balanced us :=
  ⟨staysOpen_of_words h 0 ▸ ht.1, depthAfter_of_words h 0 ▸ ht.2⟩

theorem CommaFree.of_words {ts us : List Token} {depth : Int}
    (h : ts.map Token.word = us.map Token.word) (ht : CommaFree depth ts) : CommaFree depth us := by
  rintro before u behind rfl hdepth
  rw [List.map_append, List.map_cons] at h
  obtain ⟨front, rest, rfl, hfront, hrest⟩ := List.map_eq_append_iff.1 h
  obtain ⟨t, tail, rfl, hword, -⟩ := List.map_eq_cons_iff.1 hrest
  rw [← isPunct_of_word hword]
  refine ht front t tail rfl ?_
  rw [depthAfter_of_words hfront, hdepth]

theorem withoutCommas_of_words {ts us : List Token} (h : ts.map Token.word = us.map Token.word)
    (depth : Int) :
    (withoutCommas depth ts).map Token.word = (withoutCommas depth us).map Token.word := by
  induction ts generalizing us depth with
  | nil =>
    cases us with
    | nil => rfl
    | cons u us => cases h
  | cons t ts ih =>
    cases us with
    | nil => cases h
    | cons u us =>
      obtain ⟨hword, hwords⟩ := List.cons.inj h
      rw [withoutCommas, withoutCommas, isPunct_of_word hword, turn_of_word hword]
      split
      · exact ih hwords depth
      · rw [List.map_cons, List.map_cons, hword, ih hwords]

theorem map_word_of_bare {ts us : List Token} (h : bare ts = bare us) :
    ts.map Token.word = us.map Token.word := by
  rw [← map_word_bare, h, map_word_bare]

theorem splitClauses_words (section_ : Text) :
    (splitClauses section_).map (fun clause => (tokenize clause).map Token.word) =
      (splitGroups [','] (tokenize section_)).map fun g => g.map Token.word := by
  have h := congrArg (List.map (List.map Token.word)) (splitText_tokens [','] section_)
  rw [List.map_map, List.map_map] at h
  have hbare : (List.map Token.word ∘ fun part => bare (tokenize part)) =
      fun part => (tokenize part).map Token.word := funext fun part => map_word_bare _
  have hshapes : (List.map Token.word ∘ shapes) = fun g => g.map Token.word :=
    funext fun g => map_word_shapes g
  rwa [hbare, hshapes] at h

/-! ## The section -/

theorem slice_of_mem_tokenize {s : Text} {t : Token} (h : t ∈ tokenize s) :
    slice s t.start t.stop = t.value := by
  have hlaid : ∀ {pos : Nat} {ts : List Token}, Laid s pos ts → t ∈ ts →
      slice s t.start t.stop = t.value := by
    intro pos ts
    induction ts generalizing pos with
    | nil => exact fun _ hin => nomatch hin
    | cons u ts ih =>
      rintro ⟨-, -, hslice, -, -, -, hrest⟩ hin
      rcases List.mem_cons.1 hin with rfl | hin
      · exact hslice
      · exact ih hrest hin
  exact hlaid (laid_tokenize s) h

theorem char_of_mark {s : Text} {t : Token} {c : Char} (h : t ∈ tokenize s)
    (hc : t.isPunct [c] = true) : s[t.start]? = some c ∧ t.stop = t.start + 1 := by
  unfold Token.isPunct at hc
  rw [Bool.and_eq_true, beq_iff_eq, beq_iff_eq] at hc
  have hstop : t.stop = t.start + 1 := by rw [Token.stop, hc.2]; rfl
  have hslice := slice_of_mem_tokenize h
  rw [hstop, hc.2, slice, Nat.add_sub_cancel_left] at hslice
  refine ⟨?_, hstop⟩
  have hhead : ((s.drop t.start).take 1)[0]? = some c := by rw [hslice]; rfl
  rw [List.getElem?_take_of_lt Nat.one_pos, List.getElem?_drop] at hhead
  exact hhead

/-- Where a section is found, it lies between the parenthesis behind the heading
and the one that matches it. -/
theorem Section.between_parentheses {sql : Text} {s : Section} (hs : Section.locate sql = .ok s) :
    ∃ (h : Heading) (opening : Token) (inner : List Token) (closing : Token) (behind : List Token),
      tokenize sql = h.tokens ++ opening :: (inner ++ closing :: behind) ∧
      opening.isOpen = true ∧ closing.isClose = true ∧ Balanced inner ∧
      h.names.getLast? = some s.table.name ∧ s.temporary = !h.temporary.isEmpty ∧
      s.ifNotExists = !h.guard.isEmpty ∧ s.start = opening.stop ∧ s.stop = closing.start := by
  obtain ⟨h, opening, rest, hts, hopen, hstart, hstop, hname, htemporary, hguard⟩ :=
    Section.heading_of_locate hs
  cases hgroup : closeGroup? 0 rest with
  | none =>
    rw [closingPlace?_eq_none hgroup] at hstop
    cases hstop
  | some p =>
    obtain ⟨inner, behind⟩ := p
    obtain ⟨closing, hplace, hrest⟩ := closingPlace?_eq_some hgroup
    obtain ⟨hstays, hafter, close, hclose, hrest'⟩ := closeGroup?_balanced hgroup
    have hsame : close = closing :=
      (List.cons.inj (List.append_cancel_left (hrest'.symm.trans hrest))).1
    rw [hstop] at hplace
    subst hrest
    exact ⟨h, opening, inner, closing, behind, hts, hopen, hsame ▸ hclose, ⟨hstays, hafter⟩, hname,
      htemporary, hguard, hstart, Option.some.inj hplace⟩

/-- The reader of sections accepts the grammar of a heading with a section and
nothing else. -/
theorem Section.locate_ok_iff (sql : Text) :
    (∃ s, Section.locate sql = .ok s) ↔ OpensSection (tokenize sql) := by
  constructor
  · rintro ⟨s, hs⟩
    obtain ⟨h, opening, inner, closing, behind, hts, hopen, hclose, hbalanced, -⟩ :=
      Section.between_parentheses hs
    refine ⟨h, opening, inner, closing, behind, hts, hopen, hclose, ?_⟩
    rw [depthAfter_append, depthAfter_add 1, hbalanced.2, depthAfter_cons, turn_of_isClose hclose]
    rfl
  · rintro ⟨h, opening, inner, closing, behind, hts, hopen, -, hzero⟩
    obtain ⟨⟨inner', behind'⟩, hgroup⟩ := closeGroup?_isSome behind hzero
    obtain ⟨close, hplace, -⟩ := closingPlace?_eq_some hgroup
    exact h.locate hts hopen hplace

/-- The clauses of a section with balanced tokens are balanced parts without a
comma outside parentheses, and they hold all of the tokens but the commas between
them. -/
theorem splitClauses_balanced {part : Text} (h : Balanced (tokenize part)) :
    (∀ clause ∈ splitClauses part, clause ≠ [] ∧ Balanced (tokenize clause) ∧
      CommaFree 0 (tokenize clause)) ∧
    (splitClauses part).flatMap (fun clause => (tokenize clause).map Token.word) =
      (withoutCommas 0 (tokenize part)).map Token.word := by
  obtain ⟨hgroups, hflat⟩ := splitGroups_balanced h
  have hclauses := splitClauses_words part
  constructor
  · intro clause hin
    have hwords : (tokenize clause).map Token.word ∈
        (splitGroups [','] (tokenize part)).map fun g => g.map Token.word := by
      rw [← hclauses]
      exact List.mem_map_of_mem hin
    obtain ⟨g, hg, hsame⟩ := List.mem_map.1 hwords
    obtain ⟨hne, hgroup, hfree⟩ := hgroups g hg
    refine ⟨?_, hgroup.of_words hsame, hfree.of_words hsame⟩
    -- An empty clause would have no tokens, and its group has some.
    rintro rfl
    rw [tokenize, tokensFrom_nil] at hsame
    exact hne (List.map_eq_nil_iff.1 hsame)
  · rw [List.flatMap_def, hclauses, ← List.map_flatten, hflat]

/-- A section is found in exactly the statements that open one; the others are
refused. It lies between the opening parenthesis behind the heading and the
parenthesis that matches it, its text has the tokens between the two, and its
clauses are balanced parts without a comma outside parentheses that hold all of
these tokens but the commas between them. -/
theorem Section.locate_exact (sql : Text) :
    ((∃ s, Section.locate sql = .ok s) ↔ OpensSection (tokenize sql)) ∧
    ((∃ cause, Section.locate sql = .error cause) ↔ ¬ OpensSection (tokenize sql)) ∧
    ∀ s, Section.locate sql = .ok s →
      ∃ (h : Heading) (opening : Token) (inner : List Token) (closing : Token) (behind : List Token),
        tokenize sql = h.tokens ++ opening :: (inner ++ closing :: behind) ∧
        opening.isOpen = true ∧ closing.isClose = true ∧ Balanced inner ∧
        h.names.getLast? = some s.table.name ∧ s.temporary = !h.temporary.isEmpty ∧
        s.ifNotExists = !h.guard.isEmpty ∧
        s.start = opening.start + 1 ∧ sql[s.start - 1]? = some '(' ∧
        s.stop = closing.start ∧ sql[s.stop]? = some ')' ∧
        (tokenize (slice sql s.start s.stop)).map Token.word = inner.map Token.word ∧
        (∀ clause ∈ splitClauses (slice sql s.start s.stop),
          clause ≠ [] ∧ Balanced (tokenize clause) ∧ CommaFree 0 (tokenize clause)) ∧
        (splitClauses (slice sql s.start s.stop)).flatMap
            (fun clause => (tokenize clause).map Token.word) =
          (withoutCommas 0 inner).map Token.word := by
  refine ⟨Section.locate_ok_iff sql, ?_, fun s hs => ?_⟩
  · rw [← Section.locate_ok_iff]
    cases Section.locate sql with
    | ok s => simp
    | error cause => simp
  · obtain ⟨h, opening, inner, closing, behind, hts, hopen, hclose, hbalanced, hname, htemporary,
      hguard, hstart, hstop⟩ := Section.between_parentheses hs
    have hmem : opening ∈ tokenize sql ∧ closing ∈ tokenize sql := by
      rw [hts]
      simp
    obtain ⟨hopenChar, hopenStop⟩ := char_of_mark hmem.1 hopen
    obtain ⟨hcloseChar, -⟩ := char_of_mark hmem.2 hclose
    have hwords : (tokenize (slice sql s.start s.stop)).map Token.word = inner.map Token.word := by
      rw [hstart, hstop]
      exact map_word_of_bare (tokenize_between hts)
    obtain ⟨hclauses, hflat⟩ := splitClauses_balanced (hbalanced.of_words hwords.symm)
    refine ⟨h, opening, inner, closing, behind, hts, hopen, hclose, hbalanced, hname, htemporary,
      hguard, hstart.trans hopenStop, ?_, hstop, hstop ▸ hcloseChar, hwords, hclauses,
      hflat.trans (withoutCommas_of_words hwords 0)⟩
    rw [hstart, hopenStop]
    exact hopenChar

end TableDialects
