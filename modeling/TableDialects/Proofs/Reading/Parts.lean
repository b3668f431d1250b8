import Mathlib.Data.List.Forall2
import TableDialects.Proofs.Reading.Section
import TableDialects.Proofs.Token.Printed

/- The parts of a source between separators, commas for clauses and semicolons
   for statements. Each part is its own only part, and the parts joined by the
   separator and a line feed are split into the same parts again
   (`split_stable`). Neither depends on the source being well formed: quotes and
   comments that are never closed and parentheses without a partner stay what
   they are, because the joined text is the source with its gaps thinned
   (`Scanned.rejoins`). -/
namespace TableDialects

open Scan

/-! ## Groups of tokens -/

/-- A comma or a semicolon. -/
def IsListMark (p : Char) : Prop := p = ',' ∨ p = ';'

theorem IsListMark.neither {p : Char} (hp : IsListMark p) {t : Token} (ht : t.isPunct [p] = true) :
    t.isOpen = false ∧ t.isClose = false := by
  rcases hp with rfl | rfl
  · exact ⟨isPunct_unique ht (by decide), isPunct_unique ht (by decide)⟩
  · exact ⟨isPunct_unique ht (by decide), isPunct_unique ht (by decide)⟩

/-- The tokens hold no mark `p` outside all parentheses, counted from `depth`, so
that they are one group. -/
def OneGroup (p : Char) (depth : Int) (ts : List Token) : Prop := groupsFrom [p] depth ts = [ts]

theorem groupsFrom_mark {p : Char} (hp : IsListMark p) {t : Token} (ht : t.isPunct [p] = true)
    (us : List Token) : groupsFrom [p] 0 (t :: us) = [] :: groupsFrom [p] 0 us := by
  obtain ⟨hopen, hclose⟩ := hp.neither ht
  rw [groupsFrom, hopen, hclose, ht]
  rfl

/-- Either a mark separates here, or the token belongs to the group behind it. -/
theorem separates_or {p : Char} (t : Token) (depth : Int) :
    (t.isPunct [p] = true ∧ depth = 0) ∨ (t.isPunct [p] = false ∨ depth ≠ 0) := by
  by_cases ht : t.isPunct [p] = true
  · by_cases hd : depth = 0
    · exact .inl ⟨ht, hd⟩
    · exact .inr (.inr hd)
  · exact .inr (.inl (Bool.eq_false_iff.2 ht))

theorem oneGroup_cons {p : Char} (hp : IsListMark p) {depth : Int} {t : Token} {ts : List Token} :
    OneGroup p depth (t :: ts) ↔
      (t.isPunct [p] = false ∨ depth ≠ 0) ∧ OneGroup p (depth + t.turn) ts := by
  unfold OneGroup
  rcases separates_or t depth with ⟨ht, rfl⟩ | hkeep
  · rw [groupsFrom_mark hp ht, ht]
    simp
  · rw [groupsFrom_cons ts hkeep]
    cases hg : groupsFrom [p] (depth + t.turn) ts with
    | nil => exact absurd hg (groupsFrom_ne_nil _ _ _)
    | cons g gs => simp [hkeep]

/-- The first group ends at the first mark outside all parentheses, or holds all
the tokens. -/
theorem groupsFrom_first {p : Char} (hp : IsListMark p) (depth : Int) (ts : List Token) :
    OneGroup p depth ts ∨ ∃ g t us, ts = g ++ t :: us ∧ t.isPunct [p] = true ∧
      depthAfter depth g = 0 ∧ OneGroup p depth g := by
  induction ts generalizing depth with
  | nil => exact .inl rfl
  | cons t ts ih =>
    rcases separates_or t depth with ⟨ht, rfl⟩ | hkeep
    · exact .inr ⟨[], t, ts, rfl, ht, rfl, rfl⟩
    · rcases ih (depth + t.turn) with hone | ⟨g, u, us, rfl, hu, hdepth, hone⟩
      · exact .inl ((oneGroup_cons hp).2 ⟨hkeep, hone⟩)
      · exact .inr ⟨t :: g, u, us, rfl, hu, hdepth, (oneGroup_cons hp).2 ⟨hkeep, hone⟩⟩

/-- Behind one group and a mark, the groups of the rest follow. -/
theorem OneGroup.groupsFrom_append {p : Char} (hp : IsListMark p) {depth : Int}
    {g us : List Token} {t : Token} (hone : OneGroup p depth g) (hdepth : depthAfter depth g = 0)
    (ht : t.isPunct [p] = true) :
    groupsFrom [p] depth (g ++ t :: us) = g :: groupsFrom [p] 0 us := by
  induction g generalizing depth with
  | nil =>
    obtain rfl : depth = 0 := hdepth
    exact groupsFrom_mark hp ht us
  | cons u g ih =>
    obtain ⟨hkeep, htail⟩ := (oneGroup_cons hp).1 hone
    rw [List.cons_append, groupsFrom_cons _ hkeep, ih htail hdepth]
    rfl

theorem OneGroup.of_words {p : Char} (hp : IsListMark p) {depth : Int} {ts us : List Token}
    (h : ts.map Token.word = us.map Token.word) (hone : OneGroup p depth us) :
    OneGroup p depth ts := by
  induction ts generalizing us depth with
  | nil => rfl
  | cons t ts ih =>
    cases us with
    | nil => cases h
    | cons u us =>
      obtain ⟨hword, hwords⟩ := List.cons.inj h
      obtain ⟨hkeep, htail⟩ := (oneGroup_cons hp).1 hone
      rw [← isPunct_of_word hword] at hkeep
      rw [← turn_of_word hword] at htail
      exact (oneGroup_cons hp).2 ⟨hkeep, ih hwords htail⟩

theorem OneGroup.splitGroups {p : Char} {ts : List Token} (hone : OneGroup p 0 ts) (hne : ts ≠ []) :
    splitGroups [p] ts = [ts] := by
  unfold TableDialects.splitGroups
  rw [hone]
  simpa using hne

theorem OneGroup.splitGroups_append {p : Char} (hp : IsListMark p) {g : List Token} {t : Token}
    (hone : OneGroup p 0 g) (hdepth : depthAfter 0 g = 0) (ht : t.isPunct [p] = true)
    (us : List Token) :
    TableDialects.splitGroups [p] (g ++ t :: us) =
      TableDialects.splitGroups [p] g ++ TableDialects.splitGroups [p] us := by
  unfold TableDialects.splitGroups
  rw [hone.groupsFrom_append hp hdepth ht, hone]
  simp only [List.filter_cons, List.filter_nil]
  split <;> rfl

/-! ## Parts of a text -/

/-- The group of tokens spans the part `x` of the text `s`, which stands at
`place`. -/
def Spans (place : Nat) (s : Text) (group : List Token) (x : Text) : Prop :=
  ∃ a b t ts, group = t :: ts ∧ s = a ++ (x ++ b) ∧ place + a.length = t.start ∧
    t.start + x.length = endFrom t.start group ∧ Stops Text.isBlank x ∧ EndsFull x

theorem Spans.groupText_eq {s x : Text} {group : List Token} (h : Spans 0 s group x) :
    groupText s group = x := by
  obtain ⟨a, b, t, ts, rfl, rfl, hstart, hend, hstops, hfull⟩ := h
  obtain ⟨last, hlast⟩ : ∃ last, (t :: ts).getLast? = some last :=
    ⟨_, List.getLast?_eq_some_getLast (List.cons_ne_nil t ts)⟩
  rw [Nat.zero_add] at hstart
  rw [endFrom_getLast? hlast] at hend
  unfold groupText
  rw [hlast]
  dsimp only
  rw [slice_of_lengths hstart hend, strip_of_full hstops hfull]

theorem Spans.behind {place : Nat} {a s x : Text} {group : List Token}
    (h : Spans (place + a.length) s group x) : Spans place (a ++ s) group x := by
  obtain ⟨a', b, t, ts, hgroup, rfl, hstart, hrest⟩ := h
  refine ⟨a ++ a', b, t, ts, hgroup, by simp, ?_, hrest⟩
  rw [← hstart, List.length_append, Nat.add_assoc]

/-- The parts joined by the mark and a line feed. -/
def joined (p : Char) (xs : List Text) : Text := Text.join [p, '\n'] xs

theorem joined_cons (p : Char) (x y : Text) (ys : List Text) :
    joined p (x :: y :: ys) = x ++ (p :: '\n' :: joined p (y :: ys)) := by
  simp [joined, Text.join]

theorem joined_stops {p : Char} {y : Text} (ys : List Text) (hs : Stops Text.isBlank y)
    (hf : EndsFull y) : Stops Text.isBlank (joined p (y :: ys)) := by
  obtain ⟨z, c, rfl, -⟩ := hf
  cases ys with
  | nil => exact hs
  | cons y' ys =>
    rw [joined_cons]
    cases z with
    | nil => exact stops_cons.2 (stops_cons.1 hs)
    | cons d z => exact stops_cons.2 (stops_cons.1 hs)

/-- The part `x` with the tokens `ts`, cut out before the text `b`, has the same
tokens at every other place, before every text that `b` can be thinned to. -/
def IsMovable (ts : List Token) (x b : Text) : Prop :=
  ∀ place flag, ∃ ts', ts'.map Token.word = ts.map Token.word ∧ (∀ r, Spans place (x ++ r) ts' x) ∧
    ∀ r us', Thinned b r → Scanned (place + x.length) false r us' →
      Scanned place flag (x ++ r) (ts' ++ us')

namespace Scanned

theorem no_gap {pos : Nat} {spaced : Bool} {s g y : Text} {t : Token} {ts : List Token}
    (h : Scanned pos spaced s (t :: ts)) (hstart : t.start = pos) (hs : s = g ++ y)
    (hg : Gap y g) : g = [] := by
  cases h with
  | @token _ _ g₀ v r k _ hg₀ hv _ =>
    have hnil : g₀ = [] := List.length_eq_zero_iff.1 (Nat.add_eq_left.1 hstart)
    subst hnil
    exact hv.no_gap hs hg

/-- The first group of a text: the part it spans, and the text behind it. -/
theorem first_part {pos : Nat} {spaced : Bool} {s : Text} {t : Token} {ts us : List Token}
    (h : Scanned pos spaced s (t :: ts ++ us)) :
    ∃ a x b, s = a ++ (x ++ b) ∧ Spans pos s (t :: ts) x ∧
      Scanned (pos + a.length + x.length) false b us ∧ IsMovable (t :: ts) x b := by
  rw [List.cons_append] at h
  obtain ⟨a, s', rfl, hstart, -, hfirst⟩ := h.of_first
  rw [← List.cons_append] at hfirst
  obtain ⟨x, b, rfl, hlen, hrest, hsplice⟩ := hfirst.splice
  -- The part is scanned alone as well: the rest is cut off.
  have hx : Scanned t.start false x ({ t with spaced := false } :: ts) := by
    obtain ⟨ts', -, hsame, -, hscan⟩ := hsplice t.start false
    obtain rfl := hsame rfl rfl
    simpa using hscan [] [] (.stop b) (.done .nil)
  have hstops : Stops Text.isBlank x := hx.startsFull rfl
  have hfull : EndsFull x := hx.endsFull (List.cons_ne_nil _ _) hlen
  have hend : t.start + x.length = endFrom t.start (t :: ts) := hlen
  refine ⟨a, x, b, rfl, ⟨a, b, t, ts, rfl, rfl, hstart, hend, hstops, hfull⟩, ?_, ?_⟩
  · rw [hstart, hlen]
    simpa using hrest
  · intro place flag
    obtain ⟨ts', hword, -, hplace, hscan⟩ := hsplice place flag
    refine ⟨ts', by rw [hword]; rfl, fun r => ?_, fun r us' hr hus => ?_⟩
    · -- The part starts with its first token, which is therefore at `place`.
      cases ts' with
      | nil => cases hword
      | cons u us =>
        have hu := hscan [] [] (.stop b) (.done .nil)
        rw [List.append_nil, List.append_nil] at hu
        obtain ⟨g, y, hy, hg, hgap, -⟩ := hu.of_first
        obtain rfl := hx.no_gap rfl hy hgap
        have hsame : u.start = place := hg.symm
        refine ⟨[], r, u, us, rfl, rfl, hg, ?_, hstops, hfull⟩
        rw [hsame, hplace]
    · apply hscan r us' hr
      rw [← hplace]
      simpa using hus

end Scanned

/-! ## Joining the parts again -/

/-- A text that is one group and starts and ends with its tokens. -/
theorem OneGroup.splitText_eq {p : Char} {x : Text} {ts : List Token} (hone : OneGroup p 0 ts)
    (hscan : Scanned 0 false x ts) (hspan : Spans 0 x ts x) : splitText [p] x = [x] := by
  have hne : ts ≠ [] := by
    obtain ⟨-, -, t, ts, rfl, -⟩ := hspan
    exact List.cons_ne_nil t ts
  have htokens : tokenize x = ts := hscan.tokensFrom_eq
  rw [splitText, htokens, hone.splitGroups hne, List.map_singleton, hspan.groupText_eq]

theorem OneGroup.splitText_of_isMovable {p : Char} (hp : IsListMark p) {x b : Text}
    {ts : List Token} (hone : OneGroup p 0 ts) (hmove : IsMovable ts x b) :
    splitText [p] x = [x] := by
  obtain ⟨ts', hword, hspan, hscan⟩ := hmove 0 false
  have hx := hscan [] [] (.stop b) (.done .nil)
  have hself := hspan []
  rw [List.append_nil] at hx hself
  rw [List.append_nil] at hx
  exact (hone.of_words hp hword).splitText_eq hx hself

/-- The texts `xs` are the parts of the text `s` with the tokens `ts`, and each is
its own only part. Joined they are the source thinned from some place on, and
wherever the joined text stands it has the same parts. -/
structure Rejoins (p : Char) (pos : Nat) (s : Text) (ts : List Token) (xs : List Text) : Prop where
  spans : List.Forall₂ (Spans pos s) (splitGroups [p] ts) xs
  parts : ∀ x ∈ xs, splitText [p] x = [x]
  thinned : ∃ a s', s = a ++ s' ∧ Thinned s' (joined p xs)
  reads : ∀ place flag, ∃ ts', Scanned place flag (joined p xs) ts' ∧
    List.Forall₂ (Spans place (joined p xs)) (splitGroups [p] ts') xs

namespace Rejoins

variable {p : Char} {pos : Nat} {spaced : Bool} {s : Text} {t : Token} {ts us vs : List Token}

theorem nil (p : Char) (pos : Nat) (s : Text) : Rejoins p pos s [] [] where
  spans := .nil
  parts _ hx := absurd hx List.not_mem_nil
  thinned := ⟨[], s, rfl, .stop s⟩
  reads _ _ := ⟨[], .done .nil, .nil⟩

theorem single (hp : IsListMark p) (h : Scanned pos spaced s (t :: ts)) (hone : OneGroup p 0 (t :: ts)) :
    ∃ x, Rejoins p pos s (t :: ts) [x] := by
  rw [← List.append_nil (t :: ts)] at h
  obtain ⟨a, x, b, rfl, hspans, -, hmove⟩ := h.first_part
  refine ⟨x, ?_, ?_, ⟨a, x ++ b, rfl, Thinned.left x b⟩, fun place flag => ?_⟩
  · rw [hone.splitGroups (List.cons_ne_nil t ts)]
    exact .cons hspans .nil
  · rintro y hy
    obtain rfl := List.mem_singleton.1 hy
    exact hone.splitText_of_isMovable hp hmove
  · obtain ⟨ts', hword, hspan, hscan⟩ := hmove place flag
    have hne : ts' ≠ [] := by rintro rfl; cases hword
    have hx := hscan [] [] (.stop b) (.done .nil)
    rw [List.append_nil, List.append_nil] at hx
    refine ⟨ts', hx, ?_⟩
    rw [(hone.of_words hp hword).splitGroups hne]
    have hself := hspan []
    rw [List.append_nil] at hself
    exact .cons hself .nil

theorem skip (hp : IsListMark p) (ht : t.isPunct [p] = true) (h : Scanned pos spaced s (t :: us))
    (ih : ∀ pos s, Scanned pos false s us → ∃ xs, Rejoins p pos s us xs) :
    ∃ xs, Rejoins p pos s (t :: us) xs := by
  cases h with
  | @token _ _ g v r k _ hg hv hrest =>
    obtain ⟨xs, hspans, hparts, ⟨a, s', rfl, hthin⟩, hreads⟩ := ih _ _ hrest
    have hgroups := OneGroup.splitGroups_append hp (g := []) rfl rfl ht us
    refine ⟨xs, ?_, hparts, ⟨g ++ (v ++ a), s', by simp, hthin⟩, hreads⟩
    rw [List.nil_append] at hgroups
    rw [hgroups]
    refine hspans.imp fun group x hx => ?_
    rw [← List.append_assoc]
    apply Spans.behind
    rwa [List.length_append, ← Nat.add_assoc]

theorem reads_mark (hp : IsListMark p) {y : Text} {ys : List Text} {place : Nat} {ts' : List Token}
    (hy : Stops Text.isBlank (joined p (y :: ys)))
    (h : Scanned (place + 2) true (joined p (y :: ys)) ts') :
    Scanned place false (p :: '\n' :: joined p (y :: ys)) (⟨.punct, [p], place, false⟩ :: ts') := by
  have hread : ReadsToken .punct [p] ('\n' :: joined p (y :: ys)) := by
    rcases hp with rfl | rfl
    · exact readsToken_mark (by simp) _
    · exact readsToken_mark (by simp) _
  have hpiece := piece_blanks (c := '\n') (b := []) (by decide) (by simp) hy
  rw [List.nil_append] at hpiece
  have hfeed : Scanned (place + 1) false ('\n' :: joined p (y :: ys)) ts' := by
    apply Scanned.of_gap
    · rw [hpiece]
    · rw [hpiece]
      exact h
  exact @Scanned.token place false [] [p] _ .punct ts' .nil hread hfeed

/-- What follows the first part in the joined text. -/
def tail (p : Char) : List Text → Text
  | [] => []
  | y :: ys => p :: '\n' :: joined p (y :: ys)

theorem joined_eq_tail (p : Char) (x : Text) (xs : List Text) :
    joined p (x :: xs) = x ++ tail p xs := by
  cases xs with
  | nil => simp [joined, Text.join, tail]
  | cons y ys => exact joined_cons p x y ys

/-- The mark and the line feed stand for the gaps around the mark that was
there. -/
theorem tail_thinned (hp : IsListMark p) {g r : Text} {xs : List Text}
    (h : ∃ a s', r = a ++ s' ∧ Thinned s' (joined p xs)) :
    Thinned (g ++ ([p] ++ r)) (tail p xs) := by
  cases xs with
  | nil => exact .stop _
  | cons y ys =>
    obtain ⟨a, s', rfl, hthin⟩ := h
    have hmark : isSeparator p = true := by rcases hp with rfl | rfl <;> decide
    have := Thinned.gap hmark (g ++ [p]) (Thinned.gap (c := '\n') (by decide) a hthin)
    simpa [tail] using this

theorem reads_tail (hp : IsListMark p) {s : Text} {xs : List Text} (h : Rejoins p pos s vs xs)
    (place : Nat) : ∃ us', Scanned place false (tail p xs) us' ∧
      (us' = [] ∧ xs = [] ∨ ∃ u ts', us' = u :: ts' ∧ u.isPunct [p] = true ∧
        List.Forall₂ (Spans place (tail p xs)) (splitGroups [p] ts') xs) := by
  cases xs with
  | nil => exact ⟨[], .done .nil, .inl ⟨rfl, rfl⟩⟩
  | cons y ys =>
    obtain ⟨ts', hscan, hspans⟩ := h.reads (place + 2) true
    have hy : Stops Text.isBlank (joined p (y :: ys)) := by
      obtain ⟨group, -, hfirst, -⟩ := List.forall₂_cons_right_iff.1 hspans
      obtain ⟨-, -, -, -, -, -, -, -, hstops, hfull⟩ := hfirst
      exact joined_stops ys hstops hfull
    refine ⟨_, reads_mark hp hy hscan, .inr ⟨_, ts', rfl, by simp [Token.isPunct], ?_⟩⟩
    exact hspans.imp fun group x hx => Spans.behind (a := [p, '\n']) hx

theorem cons (hp : IsListMark p) {u : Token} (h : Scanned pos spaced s (t :: ts ++ u :: vs))
    (hone : OneGroup p 0 (t :: ts)) (hdepth : depthAfter 0 (t :: ts) = 0)
    (hu : u.isPunct [p] = true)
    (ih : ∀ pos s, Scanned pos false s vs → ∃ xs, Rejoins p pos s vs xs) :
    ∃ xs, Rejoins p pos s (t :: ts ++ u :: vs) xs := by
  obtain ⟨a, x, b, rfl, hspans, hrest, hmove⟩ := h.first_part
  cases hrest with
  | @token _ _ g v r k _ hg hv hrest =>
    have hvalue : v = [p] := by simpa using (Bool.and_eq_true_iff.1 hu).2
    subst hvalue
    obtain ⟨xs, hxs⟩ := ih _ _ hrest
    -- Joined again, the parts behind the mark are the rest with other gaps.
    have hthin := tail_thinned (g := g) hp hxs.thinned
    refine ⟨x :: xs, ?_, ?_, ?_, fun place flag => ?_⟩
    · rw [hone.splitGroups_append hp hdepth hu, hone.splitGroups (List.cons_ne_nil t ts)]
      refine .cons hspans (hxs.spans.imp fun group y hy => ?_)
      have heq : a ++ (x ++ (g ++ ([p] ++ r))) = (a ++ x ++ g ++ [p]) ++ r := by simp
      rw [heq]
      apply Spans.behind
      simpa [Nat.add_assoc] using hy
    · intro y hy
      rcases List.mem_cons.1 hy with rfl | hy
      · exact hone.splitText_of_isMovable hp hmove
      · exact hxs.parts y hy
    · rw [joined_eq_tail]
      exact ⟨a, _, rfl, hthin.append x⟩
    · obtain ⟨ts', hword, hspan, hscan⟩ := hmove place flag
      obtain ⟨us', htail, hus⟩ := hxs.reads_tail hp (place + x.length)
      have hone' := hone.of_words hp hword
      have hne : ts' ≠ [] := by rintro rfl; cases hword
      rw [joined_eq_tail]
      refine ⟨ts' ++ us', hscan _ us' hthin htail, ?_⟩
      rcases hus with ⟨rfl, rfl⟩ | ⟨u', vs', rfl, hu', hspans'⟩
      · rw [List.append_nil, hone'.splitGroups hne]
        exact .cons (hspan _) .nil
      · rw [hone'.splitGroups_append hp (depthAfter_of_words hword 0 ▸ hdepth) hu',
          hone'.splitGroups hne]
        exact .cons (hspan _) (hspans'.imp fun group y hy => hy.behind)

end Rejoins

theorem Scanned.rejoins {p : Char} (hp : IsListMark p) {pos : Nat} {spaced : Bool} {s : Text}
    {ts : List Token} (h : Scanned pos spaced s ts) : ∃ xs, Rejoins p pos s ts xs := by
  generalize hn : ts.length = n
  induction n using Nat.strongRecOn generalizing pos spaced s ts with
  | _ n ih =>
  rcases groupsFrom_first hp 0 ts with hone | ⟨g, t, us, rfl, ht, hdepth, hone⟩
  · cases ts with
    | nil => exact ⟨[], .nil p pos s⟩
    | cons t ts =>
      obtain ⟨x, hx⟩ := Rejoins.single hp h hone
      exact ⟨[x], hx⟩
  · have hlt : us.length < n := by
      simp only [List.length_append, List.length_cons] at hn
      omega
    have hrest : ∀ pos s, Scanned pos false s us → ∃ xs, Rejoins p pos s us xs :=
      fun pos s hus => ih us.length hlt hus rfl
    cases g with
    | nil => exact Rejoins.skip hp ht h hrest
    | cons t' g => exact Rejoins.cons hp h hone hdepth ht hrest

theorem map_groupText {s : Text} {gs : List (List Token)} {xs : List Text}
    (h : List.Forall₂ (Spans 0 s) gs xs) : gs.map (groupText s) = xs := by
  induction h with
  | nil => rfl
  | cons hx _ ih => rw [List.map_cons, hx.groupText_eq, ih]

theorem splitText_joined {p : Char} (hp : IsListMark p) (s : Text) :
    splitText [p] (joined p (splitText [p] s)) = splitText [p] s := by
  obtain ⟨xs, hxs⟩ := (scanned_tokenize s).rejoins hp
  have hparts : splitText [p] s = xs := map_groupText hxs.spans
  obtain ⟨ts', hscan, hspans⟩ := hxs.reads 0 false
  have htokens : tokenize (joined p xs) = ts' := hscan.tokensFrom_eq
  rw [hparts, splitText, htokens]
  exact map_groupText hspans

theorem splitText_part {p : Char} (hp : IsListMark p) {s x : Text} (h : x ∈ splitText [p] s) :
    splitText [p] x = [x] := by
  obtain ⟨xs, hxs⟩ := (scanned_tokenize s).rejoins hp
  have hparts : splitText [p] s = xs := map_groupText hxs.spans
  exact hxs.parts x (hparts ▸ h)

/-- Splitting is stable: each statement of a script and each clause of a section
is split into itself, and what is joined from them by the separator and a line
feed is split into them again. -/
theorem split_stable (t : Text) :
    ((∀ x ∈ splitStatements t, splitStatements x = [x]) ∧
      splitStatements (Text.join [';', '\n'] (splitStatements t)) = splitStatements t) ∧
    ((∀ x ∈ splitClauses t, splitClauses x = [x]) ∧
      splitClauses (Text.join [',', '\n'] (splitClauses t)) = splitClauses t) :=
  ⟨⟨fun _ => splitText_part (.inr rfl), splitText_joined (.inr rfl) t⟩,
    fun _ => splitText_part (.inl rfl), splitText_joined (.inl rfl) t⟩

end TableDialects
