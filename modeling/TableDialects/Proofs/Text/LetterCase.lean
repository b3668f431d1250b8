import TableDialects.Proofs.Text.Classes

/- Lower case is settled: a character in lower case stays as it is when it is put
   there again (`mem_lower`). A character that moves becomes neither white space nor a
   mark or digit, so that these come from themselves alone (`lowerAfter_eq_self`). To
   upper case, few characters outside ASCII come back into it (`Unmixed.upperChar_outside`).
   The facts about the tables of runs are checked once, run by run. -/
namespace TableDialects.Text

/-- The character is its own lower case, wherever it stands. -/
def Settled (c : Char) : Prop := lowerChar c = [c] ∧ c ≠ 'Σ'

instance (c : Char) : Decidable (Settled c) := inferInstanceAs (Decidable (_ ∧ _))

/-! ## Where runs move -/

namespace CaseRun

/-- The code point moved by the run. -/
def image (r : CaseRun) (n : Nat) : Nat := (Int.ofNat n + r.distance).toNat

/-- Whether no code point that the run moves lands on one that the other lists: it
lands before or behind it, or between its steps. -/
def misses (r s : CaseRun) : Bool :=
  (r.image r.last).blt s.first || s.last.blt (r.image r.first)
    || (s.step == 2 && (r.step == 2 || r.first == r.last) && (r.image r.first + s.first) % 2 == 1)

/-- The code points between the places that the ends of runs move to. -/
def imageSpans (runs : List CaseRun) : Ranges := runs.map fun r => (r.image r.first, r.image r.last)

theorem image_le {r : CaseRun} {n : Nat} (h : r.covers n = true) :
    r.image r.first ≤ r.image n ∧ r.image n ≤ r.image r.last := by
  simp only [covers, Bool.and_eq_true, decide_eq_true_eq] at h
  simp only [image, Int.ofNat_eq_natCast]
  exact ⟨Int.toNat_le_toNat (by omega), Int.toNat_le_toNat (by omega)⟩

theorem covers_image {r s : CaseRun} (hpos : 0 < r.image r.first) (h : r.misses s = true) {n : Nat}
    (hn : r.covers n = true) : s.covers (r.image n) = false := by
  have hle := image_le hn
  simp only [misses, Bool.or_eq_true, Nat.blt_eq, Bool.and_eq_true, beq_iff_eq] at h
  rw [Bool.eq_false_iff]
  intro hs
  simp only [covers, Bool.and_eq_true, decide_eq_true_eq, beq_iff_eq] at hn hs
  rcases h with (h | h) | ⟨⟨hstep, hsame⟩, hodd⟩
  · omega
  · omega
  · -- All code points of the run have one parity, and so have their images.
    have hparity : (n - r.first) % 2 = 0 := by
      rcases hsame with hsame | hsame
      · rw [← hsame]
        exact hn.2
      · omega
    have himage : r.image n = r.image r.first + (n - r.first) := by
      unfold image at hpos ⊢
      simp only [Int.ofNat_eq_natCast] at hpos ⊢
      omega
    rw [hstep] at hs
    omega

end CaseRun

theorem lowerRuns_miss : (lowerRuns.all fun r => lowerRuns.all fun s => r.misses s) = true := by decide +kernel

/-- What no character that moves becomes: an ASCII character other than k, the dotted
capital I, the capital sigma, and white space. -/
def untouched : Ranges := (0, 106) :: (108, 127) :: (0x130, 0x130) :: (0x3A3, 0x3A3) :: blankRanges

theorem imageSpans_untouched : (CaseRun.imageSpans lowerRuns).apart untouched = true := by decide +kernel

theorem moveCase_cases (n : Nat) : moveCase lowerRuns n = n ∨
    untouched.holds (moveCase lowerRuns n) = false ∧
      moveCase lowerRuns (moveCase lowerRuns n) = moveCase lowerRuns n := by
  cases hfind : lowerRuns.find? (fun r => r.covers n) with
  | none =>
    left
    rw [moveCase, hfind]
  | some r =>
    right
    have hmove : moveCase lowerRuns n = r.image n := by rw [moveCase, hfind]; rfl
    have hr := List.mem_of_find?_eq_some hfind
    have hcovers : r.covers n = true := by simpa using List.find?_some hfind
    have huntouched : ∀ m, r.image r.first ≤ m → m ≤ r.image r.last → untouched.holds m = false := by
      intro m hfirst hlast
      refine Ranges.holds_of_apart imageSpans_untouched ?_
      rw [Ranges.holds, List.any_eq_true]
      exact ⟨_, List.mem_map.2 ⟨r, hr, rfl⟩, by simp [hfirst, hlast]⟩
    have hle := CaseRun.image_le hcovers
    rw [hmove]
    refine ⟨huntouched _ hle.1 hle.2, ?_⟩
    have hpos : 0 < r.image r.first := by
      have hfirst := huntouched (r.image r.first) (Nat.le_refl _) (Nat.le_trans hle.1 hle.2)
      refine Nat.pos_of_ne_zero fun hzero => ?_
      rw [hzero] at hfirst
      revert hfirst
      decide
    have hnone : lowerRuns.find? (fun s => s.covers (r.image n)) = none := by
      rw [List.find?_eq_none]
      intro s hs
      have hmiss := List.all_eq_true.1 (List.all_eq_true.1 lowerRuns_miss r hr) s hs
      rw [CaseRun.covers_image hpos hmiss hcovers]
      exact Bool.false_ne_true
    rw [moveCase, hnone]

/-! ## Characters -/

theorem settled_of_untouched {m : Nat} (h : untouched.holds m = false) (hm : moveCase lowerRuns m = m) :
    Settled (Char.ofNat m) ∧ isBlank (Char.ofNat m) = false ∧ Char.ofNat m ∉ "(1)".toList := by
  by_cases hvalid : m.isValidChar
  · have hcode : (Char.ofNat m).toNat = m := by
      rw [Char.ofNat, dif_pos hvalid]
      rfl
    have hne : ∀ d : Char, untouched.holds d.toNat = true → Char.ofNat m ≠ d := by
      rintro d hd rfl
      rw [hcode, h] at hd
      cases hd
    refine ⟨⟨?_, hne _ (by decide)⟩, ?_, ?_⟩
    · by_cases hk : Char.ofNat m = 'k'
      · rw [hk]
        decide
      · have hhigh : ¬ (Char.ofNat m).toNat < 128 := by
          intro hlow
          exact of_ascii (p := fun c => c = 'k' ∨ untouched.holds c.toNat = true) (by decide) hlow
            |>.elim hk fun hd => hne _ hd rfl
        have hdotted : (m == 0x130) = false := by
          rw [beq_eq_false_iff_ne]
          rintro rfl
          exact hne (Char.ofNat 0x130) (by decide) rfl
        rw [hcode] at hhigh
        simp only [lowerChar, hcode, hhigh, if_false, hdotted, hm, Bool.false_eq_true]
    · cases hblank : isBlank (Char.ofNat m) with
      | false => rfl
      | true =>
        refine absurd rfl (hne (Char.ofNat m) ?_)
        simp only [untouched, Ranges.holds, List.any_cons, Bool.or_eq_true]
        exact .inr (.inr (.inr (.inr (holds_blankRanges hblank))))
    · intro hin
      revert hin
      simp [hne '(' (by decide), hne '1' (by decide), hne ')' (by decide)]
  · rw [Char.ofNat, dif_neg hvalid]
    decide

/-- A character stays as it is in lower case, or becomes settled ones that are
neither white space nor in the parameters of a type of truth values. -/
theorem lowerChar_cases (c : Char) : lowerChar c = [c] ∨
    ∀ x ∈ lowerChar c, Settled x ∧ isBlank x = false ∧ x ∉ "(1)".toList := by
  by_cases hascii : c.toNat < 128
  · exact of_ascii (p := fun c => lowerChar c = [c] ∨
      ∀ x ∈ lowerChar c, Settled x ∧ isBlank x = false ∧ x ∉ "(1)".toList) (by decide +kernel) hascii
  · by_cases hdotted : c.toNat = 0x130
    · have hchar : lowerChar c = ['i', Char.ofNat 0x307] := by simp [lowerChar, hdotted]
      rw [hchar]
      exact .inr (by decide)
    · have hchar : lowerChar c = [Char.ofNat (moveCase lowerRuns c.toNat)] := by
        simp [lowerChar, hascii, hdotted]
      rw [hchar]
      rcases moveCase_cases c.toNat with hsame | ⟨huntouched, hsettled⟩
      · rw [hsame, Char.ofNat_toNat]
        exact .inl rfl
      · refine .inr fun x hx => ?_
        cases List.mem_singleton.1 hx
        exact settled_of_untouched huntouched hsettled

/-! ## Texts -/

theorem lowerChar_ne_nil (c : Char) : lowerChar c ≠ [] := by
  unfold lowerChar
  dsimp only
  split
  · exact List.cons_ne_nil _ _
  · split <;> exact List.cons_ne_nil _ _

theorem lowerSigma_facts (before rest : Text) : Settled (lowerSigma before rest) ∧
    isBlank (lowerSigma before rest) = false ∧ lowerSigma before rest ∉ "(1)".toList := by
  unfold lowerSigma
  split <;> decide

/-- What stands for a character in lower case is the character, or new characters
that are settled and neither white space nor in the parameters of a type of truth
values. -/
theorem lowerAfter_cons (before : Text) (c : Char) (s : Text) :
    ∃ front, lowerAfter before (c :: s) = front ++ lowerAfter (c :: before) s ∧ (front = [c] ∧ Settled c ∨
      front ≠ [] ∧ ∀ x ∈ front, Settled x ∧ isBlank x = false ∧ x ∉ "(1)".toList) := by
  rw [lowerAfter]
  refine ⟨_, rfl, ?_⟩
  by_cases hsigma : c = 'Σ'
  · rw [if_pos (beq_iff_eq.2 hsigma)]
    refine .inr ⟨List.cons_ne_nil _ _, fun x hx => ?_⟩
    cases List.mem_singleton.1 hx
    exact lowerSigma_facts before s
  · rw [if_neg (by simpa using hsigma)]
    rcases lowerChar_cases c with hsame | hnew
    · exact .inl ⟨hsame, hsame, hsigma⟩
    · exact .inr ⟨lowerChar_ne_nil c, hnew⟩

theorem mem_lowerAfter {before s : Text} : ∀ x ∈ lowerAfter before s, Settled x := by
  induction s generalizing before with
  | nil => exact List.forall_mem_nil _
  | cons c s ih =>
    obtain ⟨front, heq, hfront⟩ := lowerAfter_cons before c s
    rw [heq]
    refine List.forall_mem_append.2 ⟨?_, ih⟩
    rcases hfront with ⟨rfl, hc⟩ | ⟨-, hnew⟩
    · exact List.forall_mem_singleton.2 hc
    · exact fun x hx => (hnew x hx).1

theorem mem_lower {s : Text} : ∀ x ∈ lower s, Settled x := mem_lowerAfter

/-- Settled characters stay in front of whatever follows them. -/
theorem lowerAfter_append {s : Text} (h : ∀ c ∈ s, Settled c) (before t : Text) :
    lowerAfter before (s ++ t) = s ++ lowerAfter (s.reverse ++ before) t := by
  induction s generalizing before with
  | nil => rfl
  | cons c s ih =>
    obtain ⟨hc, hs⟩ := List.forall_mem_cons.1 h
    rw [List.cons_append, lowerAfter, if_neg (by simpa using hc.2), hc.1, ih hs]
    simp

theorem lowerAfter_of_settled {s : Text} (h : ∀ c ∈ s, Settled c) (before : Text) : lowerAfter before s = s := by
  have happend := lowerAfter_append h before []
  rwa [List.append_nil, lowerAfter, List.append_nil] at happend

theorem lower_of_settled {s : Text} (h : ∀ c ∈ s, Settled c) : lower s = s := lowerAfter_of_settled h []

theorem isBlank_lowerAfter {before s : Text} (h : ∀ c ∈ s, isBlank c = false) :
    ∀ x ∈ lowerAfter before s, isBlank x = false := by
  induction s generalizing before with
  | nil => exact List.forall_mem_nil _
  | cons c s ih =>
    obtain ⟨hc, hs⟩ := List.forall_mem_cons.1 h
    obtain ⟨front, heq, hfront⟩ := lowerAfter_cons before c s
    rw [heq]
    refine List.forall_mem_append.2 ⟨?_, ih hs⟩
    rcases hfront with ⟨rfl, -⟩ | ⟨-, hnew⟩
    · exact List.forall_mem_singleton.2 hc
    · exact fun x hx => (hnew x hx).2.1

/-- White space and the characters of `(1)` come from themselves alone. -/
theorem lowerAfter_eq_self {before s : Text}
    (h : ∀ x ∈ lowerAfter before s, isBlank x = true ∨ x ∈ "(1)".toList) : lowerAfter before s = s := by
  induction s generalizing before with
  | nil => rfl
  | cons c s ih =>
    obtain ⟨front, heq, hfront⟩ := lowerAfter_cons before c s
    rw [heq] at h ⊢
    obtain ⟨hkept, hrest⟩ := List.forall_mem_append.1 h
    rw [ih hrest]
    rcases hfront with ⟨rfl, -⟩ | ⟨hne, hnew⟩
    · rfl
    · obtain ⟨x, hx⟩ := List.exists_mem_of_ne_nil front hne
      obtain ⟨-, hblank, hone⟩ := hnew x hx
      rcases hkept x hx with hb | ho
      · rw [hb] at hblank
        cases hblank
      · exact absurd ho hone

/-! ## Upper case -/

/-- A list of ASCII letters that no character outside ASCII is made of in upper case:
each of the expansions has another character, and a run that leads into ASCII is one
code point and leads to another letter. -/
structure Unmixed (letters : List Char) : Prop where
  ascii : ∀ l ∈ letters, 0 < l.toNat ∧ l.toNat < 128
  expansions : ∀ e ∈ upperExpansions, ∃ n ∈ e.2, Char.ofNat n ∉ letters
  runs : ∀ r ∈ upperRuns, 128 ≤ (r.first : Int) + r.distance ∨
    r.first = r.last ∧ Char.ofNat ((r.first : Int) + r.distance).toNat ∉ letters

theorem Unmixed.ofNat_not_mem {letters : List Char} (hl : Unmixed letters) {n : Nat} (h : 128 ≤ n) :
    Char.ofNat n ∉ letters := by
  intro hmem
  obtain ⟨hpos, hlt⟩ := hl.ascii _ hmem
  have hcode : (Char.ofNat n).toNat = n ∨ (Char.ofNat n).toNat = 0 := by
    unfold Char.ofNat
    by_cases hvalid : n.isValidChar
    · exact .inl (by rw [dif_pos hvalid]; rfl)
    · exact .inr (by rw [dif_neg hvalid]; rfl)
  omega

/-- Outside ASCII no character is made of the letters in upper case. -/
theorem Unmixed.upperChar_outside {letters : List Char} (hl : Unmixed letters) {c : Char} (h : 128 ≤ c.toNat) :
    ∃ d ∈ upperChar c, d ∉ letters := by
  unfold upperChar
  rw [if_neg (Nat.not_lt.2 h)]
  split
  · rename_i e he
    obtain ⟨n, hn, hout⟩ := hl.expansions e (List.mem_of_find?_eq_some he)
    exact ⟨_, List.mem_map.2 ⟨n, hn, rfl⟩, hout⟩
  · refine ⟨_, List.mem_singleton.2 rfl, ?_⟩
    unfold moveCase
    split
    · rename_i r hr
      have hcovers := List.find?_some hr
      simp only [CaseRun.covers, Bool.and_eq_true, decide_eq_true_eq] at hcovers
      rcases hl.runs r (List.mem_of_find?_eq_some hr) with hfar | ⟨hone, hout⟩
      · apply hl.ofNat_not_mem
        simp only [Int.ofNat_eq_natCast]
        omega
      · have hn : c.toNat = r.first := by omega
        rw [hn]
        exact hout
    · exact hl.ofNat_not_mem h

/-- A character made of such letters in upper case is an ASCII character. -/
theorem Unmixed.ascii_of_upperChar {letters : List Char} (hl : Unmixed letters) {c : Char}
    (h : ∀ d ∈ upperChar c, d ∈ letters) : c.toNat < 128 := by
  refine Nat.lt_of_not_le fun hhigh => ?_
  obtain ⟨d, hd, hout⟩ := hl.upperChar_outside hhigh
  exact hout (h d hd)

/-- A settled text of such letters in upper case is their lower case. -/
theorem Unmixed.eq_of_upper {letters : List Char} (hl : Unmixed letters) {s : Text}
    (hs : ∀ c ∈ s, Settled c) (h : ∀ x ∈ upper s, x ∈ letters) : s = (upper s).flatMap lowerChar := by
  induction s with
  | nil => rfl
  | cons c s ih =>
    obtain ⟨hc, hrest⟩ := List.forall_mem_cons.1 hs
    rw [upper, List.flatMap_cons] at h ⊢
    obtain ⟨hfirst, hletters⟩ := List.forall_mem_append.1 h
    have hascii := hl.ascii_of_upperChar hfirst
    have hback : (upperChar c).flatMap lowerChar = [c] :=
      of_ascii (p := fun c => Settled c → (upperChar c).flatMap lowerChar = [c]) (by decide +kernel) hascii hc
    rw [List.flatMap_append, hback]
    exact congrArg (c :: ·) (ih hrest hletters)

/-! ## Words in any letter case -/

theorem upper_cons (c : Char) (v : Text) : upper (c :: v) = upperChar c ++ upper v := List.flatMap_cons

theorem upper_append (v x : Text) : upper (v ++ x) = upper v ++ upper x := List.flatMap_append

theorem upperChar_ne_nil (c : Char) : upperChar c ≠ [] := by
  have hexpansions : ∀ e ∈ upperExpansions, e.2 ≠ [] := by decide +kernel
  unfold upperChar
  dsimp only
  split
  · exact List.cons_ne_nil _ _
  · split
    · rename_i e he
      exact fun hnil => hexpansions e (List.mem_of_find?_eq_some he) (List.map_eq_nil_iff.1 hnil)
    · exact List.cons_ne_nil _ _

theorem length_le_flatMap {f : Char → Text} (h : ∀ c, f c ≠ []) (s : Text) :
    s.length ≤ (s.flatMap f).length := by
  induction s with
  | nil => exact Nat.le_refl _
  | cons c s ih =>
    have hpos := List.length_pos_iff.2 (h c)
    rw [List.flatMap_cons, List.length_append, List.length_cons]
    omega

theorem length_le_upper (s : Text) : s.length ≤ (upper s).length := length_le_flatMap upperChar_ne_nil s

/-- Letters in upper case that only their own lower case is taken for. -/
structure Matched (letters : List Char) : Prop extends Unmixed letters where
  upper : ∀ l ∈ letters, upperChar l = [l] ∧ l ≠ 'K' ∧ l ≠ 'I'

theorem Matched.sameLetter {letters : List Char} (h : Matched letters) {l : Char} (hl : l ∈ letters) (c : Char) :
    sameLetter l c = (upperChar c == [l]) := by
  obtain ⟨hupper, hk, hi⟩ := h.upper l hl
  have hne : ∀ {d : Char}, l ≠ d → (([l] : Text) == [d]) = false := fun hd => by simpa using hd
  rw [Text.sameLetter, hupper, hne hk, hne hi, Bool.false_and, Bool.false_and, Bool.or_false, Bool.or_false]
  exact Bool.beq_comm

/-- A text starts with a word of such letters, letter case apart, exactly if a start of
it is the word in upper case. -/
theorem Matched.afterWord?_eq_some {letters : List Char} (h : Matched letters) {w : Text} (hw : ∀ l ∈ w, l ∈ letters)
    {s r : Text} : afterWord? w s = some r ↔ ∃ v, s = v ++ r ∧ Text.upper v = w := by
  induction w generalizing s with
  | nil =>
    constructor
    · exact fun hr => ⟨[], Option.some.inj hr, rfl⟩
    · rintro ⟨v, rfl, hv⟩
      cases v with
      | nil => rfl
      | cons c v =>
        rw [upper_cons, List.append_eq_nil_iff] at hv
        have hascii := h.ascii_of_upperChar (c := c) (by rw [hv.1]; exact List.forall_mem_nil _)
        have hne := of_ascii (p := fun c => upperChar c ≠ []) (by decide) hascii
        exact absurd hv.1 hne
  | cons l w ih =>
    obtain ⟨hl, hrest⟩ := List.forall_mem_cons.1 hw
    constructor
    · intro hr
      cases s with
      | nil => cases hr
      | cons c s =>
        rw [afterWord?, h.sameLetter hl] at hr
        split at hr
        · rename_i hc
          obtain ⟨v, rfl, hv⟩ := (ih hrest).1 hr
          exact ⟨c :: v, rfl, by rw [upper_cons, beq_iff_eq.1 hc, hv]; rfl⟩
        · cases hr
    · rintro ⟨v, rfl, hv⟩
      cases v with
      | nil => cases hv
      | cons c v =>
        rw [upper_cons] at hv
        have hascii := h.ascii_of_upperChar (c := c) fun d hd =>
          hw d (hv ▸ List.mem_append_left _ hd)
        have hone := of_ascii (p := fun c => upperChar c = [(upperChar c).headD ' ']) (by decide) hascii
        rw [hone] at hv
        obtain ⟨hhead, hv⟩ := List.cons.inj hv
        rw [List.cons_append, afterWord?, h.sameLetter hl, hone, hhead, if_pos (beq_self_eq_true _)]
        exact (ih hrest).2 ⟨v, rfl, hv⟩

/-- A word that goes on is looked for where its first part ends. -/
theorem afterWord?_append (w w' s : Text) :
    afterWord? (w ++ w') s = (afterWord? w s).bind (afterWord? w') := by
  induction w generalizing s with
  | nil => rfl
  | cons l w ih =>
    cases s with
    | nil => rfl
    | cons c s =>
      rw [List.cons_append, afterWord?, afterWord?]
      split
      · exact ih s
      · rfl

end TableDialects.Text
