import TableDialects.Text.Blank
import TableDialects.Text.Case
import TableDialects.Text.Digit
import TableDialects.Text.Word

/- Classes of characters that have nothing in common. Two sets of code points
   given as ranges are compared range by range (`Ranges.holds_of_passes`), so that a
   statement about every character is settled by a finite check. White space, digits
   and word characters are told apart that way, and white space and digits have no
   letter case (`upperChar_of_isDigit`, `lowerChar_of_isBlank`). -/
namespace TableDialects.Text

/-- Whether no range of one set meets a range of the other. -/
def Ranges.apart (a b : Ranges) : Bool :=
  a.all fun r => b.all fun q => r.2 < q.1 || q.2 < r.1

theorem Ranges.holds_of_apart {a b : Ranges} {n : Nat} (h : a.apart b = true)
    (ha : a.holds n = true) : b.holds n = false := by
  unfold Ranges.holds at ha ⊢
  obtain ⟨r, hr, hrn⟩ := List.any_eq_true.1 ha
  rw [List.any_eq_false]
  intro q hq hqn
  have hrq := List.all_eq_true.1 (List.all_eq_true.1 h r hr) q hq
  simp only [Bool.and_eq_true, Bool.or_eq_true, decide_eq_true_eq] at hrn hqn hrq
  omega

namespace Ranges

def ascends : Ranges → Bool
  | r :: q :: a => r.1.ble q.1 && ascends (q :: a)
  | _ => true

/-- Whether no range of one set meets a range of the other, told by going along both in
ascending order: what ends before a range ends before those behind it too. -/
def passes : Ranges → Ranges → Bool
  | [], _ => true
  | r :: a, b =>
    let rest := b.dropWhile fun q => q.2.blt r.1
    (rest.head?.all fun q => r.2.blt q.1) && passes a rest

theorem ascends_cons {r : Nat × Nat} {a : Ranges} (h : ascends (r :: a) = true) :
    ascends a = true ∧ ∀ q ∈ a, r.1 ≤ q.1 := by
  induction a generalizing r with
  | nil => exact ⟨rfl, List.forall_mem_nil _⟩
  | cons q a ih =>
    rw [ascends, Bool.and_eq_true, Nat.ble_eq] at h
    exact ⟨h.2, List.forall_mem_cons.2 ⟨h.1, fun p hp => Nat.le_trans h.1 ((ih h.2).2 p hp)⟩⟩

theorem ascends_dropWhile {a : Ranges} (h : a.ascends = true) (p : Nat × Nat → Bool) :
    ascends (a.dropWhile p) = true := by
  induction a with
  | nil => rfl
  | cons r a ih =>
    rw [List.dropWhile_cons]
    split
    · exact ih (ascends_cons h).1
    · exact h

theorem apart_of_passes {a b : Ranges} (ha : a.ascends = true) (hb : b.ascends = true)
    (h : a.passes b = true) : a.apart b = true := by
  induction a generalizing b with
  | nil => rfl
  | cons r a ih =>
    obtain ⟨hnext, hpasses⟩ := Bool.and_eq_true_iff.1 h
    have hrest := ascends_dropWhile hb fun q => q.2.blt r.1
    have hends : ∀ q ∈ b, q.2 < r.1 ∨ q ∈ b.dropWhile fun q => q.2.blt r.1 := by
      intro q hq
      rw [← List.takeWhile_append_dropWhile (p := fun q => q.2.blt r.1) (l := b), List.mem_append] at hq
      exact hq.imp_left fun hq => Nat.blt_eq.mp (List.all_eq_true.1 List.all_takeWhile q hq)
    have hapart := ih (ascends_cons ha).1 hrest hpasses
    generalize b.dropWhile (fun q => q.2.blt r.1) = rest at *
    have hstarts : ∀ q ∈ rest, r.2 < q.1 := by
      cases rest with
      | nil => exact List.forall_mem_nil _
      | cons q rest =>
        have hq : r.2 < q.1 := Nat.blt_eq.mp hnext
        exact List.forall_mem_cons.2 ⟨hq, fun p hp => Nat.lt_of_lt_of_le hq ((ascends_cons hrest).2 p hp)⟩
    simp only [apart, List.all_eq_true, Bool.or_eq_true, decide_eq_true_eq] at hapart ⊢
    intro s hs q hq
    rcases hends q hq with hbefore | hin
    · rcases List.mem_cons.1 hs with rfl | hs
      · exact .inr hbefore
      · exact .inr (Nat.lt_of_lt_of_le hbefore ((ascends_cons ha).2 s hs))
    · rcases List.mem_cons.1 hs with rfl | hs
      · exact .inl (hstarts q hin)
      · exact hapart s hs q hin

theorem holds_of_passes {a b : Ranges} {n : Nat} (ha : a.ascends = true) (hb : b.ascends = true)
    (h : a.passes b = true) (hn : a.holds n = true) : b.holds n = false :=
  holds_of_apart (apart_of_passes ha hb h) hn

end Ranges

/-- The code points of white space. -/
def blankRanges : Ranges := [
  (9, 13), (28, 32), (0x85, 0x85), (0xA0, 0xA0), (0x1680, 0x1680), (0x2000, 0x200A),
  (0x2028, 0x2029), (0x202F, 0x202F), (0x205F, 0x205F), (0x3000, 0x3000)]

theorem holds_blankRanges {c : Char} (h : isBlank c = true) : blankRanges.holds c.toNat = true := by
  simp only [isBlank, Bool.or_eq_true, Bool.and_eq_true, beq_iff_eq, decide_eq_true_eq] at h
  simp only [Ranges.holds, blankRanges, List.any_cons, List.any_nil, Bool.or_eq_true,
    Bool.and_eq_true, decide_eq_true_eq]
  omega

theorem isWordChar_of_isBlank {c : Char} (h : isBlank c = true) : isWordChar c = false := by
  have hout : wordRanges.holds c.toNat = false :=
    Ranges.holds_of_passes (by decide) (by decide +kernel) (by decide +kernel) (holds_blankRanges h)
  unfold isWordChar
  split
  · simp only [isBlank, isAsciiLetter, isAsciiDigit, Bool.or_eq_true, Bool.and_eq_true, beq_iff_eq,
      decide_eq_true_eq, Bool.or_eq_false_iff, Bool.and_eq_false_iff, decide_eq_false_iff_not,
      beq_eq_false_iff_ne] at h ⊢
    refine ⟨⟨⟨by omega, by omega⟩, by omega⟩, ?_⟩
    rintro rfl
    revert h
    decide
  · exact hout

theorem isDigit_eq_holds (c : Char) : isDigit c = (Ranges.holds ((48, 57) :: digitRanges) c.toNat) := by
  unfold isDigit digitValue? Ranges.holds
  by_cases hn : c.toNat < 128
  · have hnone : digitRanges.any (fun r => decide (r.1 ≤ c.toNat) && decide (c.toNat ≤ r.2)) = false := by
      have hlow : digitRanges.all (fun r => 128 ≤ r.1) = true := by decide
      rw [List.any_eq_false]
      intro r hr hin
      have := List.all_eq_true.1 hlow r hr
      simp only [Bool.and_eq_true, decide_eq_true_eq] at hin this
      omega
    simp only [hn, if_true, List.any_cons, hnone, Bool.or_false]
    split
    · simp_all
    · simp_all
  · have hout : (decide (48 ≤ c.toNat) && decide (c.toNat ≤ 57)) = false := by
      simp only [Bool.and_eq_false_iff, decide_eq_false_iff_not]
      omega
    simp only [hn, if_false, List.any_cons, hout, Bool.false_or, Option.isSome_map,
      List.isSome_find?]

theorem isDigit_of_isBlank {c : Char} (h : isBlank c = true) : isDigit c = false := by
  rw [isDigit_eq_holds]
  exact Ranges.holds_of_apart (by decide) (holds_blankRanges h)

/-- A statement about an ASCII character is settled by trying all of them. -/
theorem of_ascii {p : Char → Prop} (h : ∀ n < 128, p (Char.ofNat n)) {c : Char}
    (hc : c.toNat < 128) : p c := by
  have := h c.toNat hc
  rwa [Char.ofNat_toNat] at this

/-! ## Digits and white space have no letter case -/

/-- The code points between the ends of runs. -/
def CaseRun.spans (runs : List CaseRun) : Ranges := runs.map fun r => (r.first, r.last)

theorem moveCase_eq_self {runs : List CaseRun} {n : Nat}
    (h : (CaseRun.spans runs).holds n = false) : moveCase runs n = n := by
  have hnone : runs.find? (fun r => r.covers n) = none := by
    rw [List.find?_eq_none]
    intro r hr hcovers
    simp only [CaseRun.covers, Bool.and_eq_true, decide_eq_true_eq] at hcovers
    have hout := List.any_eq_false.1 h (r.first, r.last) (List.mem_map.2 ⟨r, hr, rfl⟩)
    simp only [Bool.and_eq_true, decide_eq_true_eq] at hout
    exact hout hcovers.1
  unfold moveCase
  rw [hnone]

theorem holds_digitRanges {c : Char} (h : isDigit c = true) :
    Ranges.holds ((48, 57) :: digitRanges) c.toNat = true := by
  rw [← isDigit_eq_holds]
  exact h

/-- A character apart from those with an upper case of their own is its own upper
case. -/
theorem upperChar_of_holds {ranges : Ranges} (hranges : ranges.ascends = true)
    (hruns : ranges.passes (CaseRun.spans upperRuns) = true)
    (hexpansions : ranges.passes (upperExpansions.map fun e => (e.1, e.1)) = true)
    (hascii : ∀ n < 128, ranges.holds (Char.ofNat n).toNat = true → upperChar (Char.ofNat n) = [Char.ofNat n])
    {c : Char} (h : ranges.holds c.toNat = true) : upperChar c = [c] := by
  have hexpand : Ranges.holds (upperExpansions.map fun e => (e.1, e.1)) c.toNat = false :=
    Ranges.holds_of_passes hranges (by decide +kernel) hexpansions h
  have hmove : moveCase upperRuns c.toNat = c.toNat :=
    moveCase_eq_self (Ranges.holds_of_passes hranges (by decide +kernel) hruns h)
  have hnone : upperExpansions.find? (fun e => e.1 == c.toNat) = none := by
    rw [List.find?_eq_none]
    intro e he heq
    have hout := List.any_eq_false.1 hexpand (e.1, e.1) (List.mem_map.2 ⟨e, he, rfl⟩)
    simp only [beq_iff_eq] at heq
    simp [heq] at hout
  by_cases hn : c.toNat < 128
  · exact of_ascii (p := fun c => ranges.holds c.toNat = true → upperChar c = [c]) hascii hn h
  · simp only [upperChar, hn, if_false, hnone, hmove, Char.ofNat_toNat]

theorem upperChar_of_isDigit {c : Char} (h : isDigit c = true) : upperChar c = [c] :=
  upperChar_of_holds (by decide +kernel) (by decide +kernel) (by decide +kernel) (by decide +kernel)
    (holds_digitRanges h)

theorem upperChar_of_isBlank {c : Char} (h : isBlank c = true) : upperChar c = [c] :=
  upperChar_of_holds (by decide) (by decide +kernel) (by decide +kernel) (by decide +kernel) (holds_blankRanges h)

/-- A character apart from those with a lower case of their own is its own lower
case. -/
theorem lowerChar_of_holds {ranges : Ranges} (hranges : ranges.ascends = true)
    (hruns : ranges.passes (CaseRun.spans lowerRuns) = true)
    (hdotted : ranges.apart [(0x130, 0x130)] = true)
    (hascii : ∀ n < 128, ranges.holds (Char.ofNat n).toNat = true → lowerChar (Char.ofNat n) = [Char.ofNat n])
    {c : Char} (h : ranges.holds c.toNat = true) : lowerChar c = [c] := by
  have hmove : moveCase lowerRuns c.toNat = c.toNat :=
    moveCase_eq_self (Ranges.holds_of_passes hranges (by decide +kernel) hruns h)
  have hout : Ranges.holds [(0x130, 0x130)] c.toNat = false := Ranges.holds_of_apart hdotted h
  have hne : (c.toNat == 0x130) = false := by
    simp only [Ranges.holds, List.any_cons, List.any_nil, Bool.or_false, Bool.and_eq_false_iff,
      decide_eq_false_iff_not, beq_eq_false_iff_ne] at hout ⊢
    omega
  by_cases hn : c.toNat < 128
  · exact of_ascii (p := fun c => ranges.holds c.toNat = true → lowerChar c = [c]) hascii hn h
  · simp only [lowerChar, hn, if_false, hne, hmove, Char.ofNat_toNat, Bool.false_eq_true]

theorem lowerChar_of_isDigit {c : Char} (h : isDigit c = true) : lowerChar c = [c] :=
  lowerChar_of_holds (by decide +kernel) (by decide +kernel) (by decide) (by decide +kernel) (holds_digitRanges h)

theorem lowerChar_of_isBlank {c : Char} (h : isBlank c = true) : lowerChar c = [c] :=
  lowerChar_of_holds (by decide) (by decide +kernel) (by decide) (by decide +kernel) (holds_blankRanges h)

theorem ne_sigma_of_isDigit {c : Char} (h : isDigit c = true) : c ≠ 'Σ' := by
  rintro rfl
  revert h
  decide

theorem ne_of_isDigit {c d : Char} (hc : isDigit c = true) (hd : isDigit d = false) : c ≠ d := by
  rintro rfl
  rw [hc] at hd
  cases hd

/-- A character that is its own upper case is no letter in either case, but for itself
and the two signs that are read as letters. -/
theorem sameLetter_of_upperChar {l c : Char} (hl : isAsciiLetter l = true) (hupper : upperChar c = [c])
    (hc : isAsciiLetter c = false) (hkelvin : c ≠ Char.ofNat 0x212A) (hdotted : c ≠ Char.ofNat 0x130) :
    sameLetter l c = false := by
  have hascii : l.toNat < 128 := by
    simp only [isAsciiLetter, Bool.or_eq_true, Bool.and_eq_true, decide_eq_true_eq] at hl
    omega
  obtain ⟨hu, hletter⟩ := of_ascii (p := fun l => isAsciiLetter l = true →
    upperChar l = [(upperChar l).headD ' '] ∧ isAsciiLetter ((upperChar l).headD ' ') = true)
    (by decide +kernel) hascii hl
  have hne : ([(upperChar l).headD ' '] == [c]) = false := by
    rw [beq_eq_false_iff_ne]
    intro heq
    rw [(List.cons.inj heq).1, hc] at hletter
    cases hletter
  have hcode : ∀ {n : Nat}, c ≠ Char.ofNat n → (c.toNat == n) = false := by
    intro n hn
    rw [beq_eq_false_iff_ne]
    rintro rfl
    exact hn (Char.ofNat_toNat c).symm
  rw [sameLetter, hupper, hcode hkelvin, hcode hdotted, hu, hne]
  simp

theorem sameLetter_of_isDigit {l c : Char} (hl : isAsciiLetter l = true) (hc : isDigit c = true) :
    sameLetter l c = false := by
  have hletter : isAsciiLetter c = false := by
    by_cases hn : c.toNat < 128
    · exact of_ascii (p := fun c => isDigit c = true → isAsciiLetter c = false) (by decide) hn hc
    · simp only [isAsciiLetter, Bool.or_eq_false_iff, Bool.and_eq_false_iff, decide_eq_false_iff_not]
      omega
  exact sameLetter_of_upperChar hl (upperChar_of_isDigit hc) hletter (ne_of_isDigit hc (by decide))
    (ne_of_isDigit hc (by decide))

theorem sameLetter_of_isBlank {l c : Char} (hl : isAsciiLetter l = true) (hc : isBlank c = true) :
    sameLetter l c = false := by
  have hletter : isAsciiLetter c = false := by
    simp only [isBlank, Bool.or_eq_true, Bool.and_eq_true, beq_iff_eq, decide_eq_true_eq] at hc
    simp only [isAsciiLetter, Bool.or_eq_false_iff, Bool.and_eq_false_iff, decide_eq_false_iff_not]
    omega
  have hne : ∀ {d : Char}, isBlank d = false → c ≠ d := by
    rintro d hd rfl
    rw [hc] at hd
    cases hd
  exact sameLetter_of_upperChar hl (upperChar_of_isBlank hc) hletter (hne (by decide)) (hne (by decide))

end TableDialects.Text
