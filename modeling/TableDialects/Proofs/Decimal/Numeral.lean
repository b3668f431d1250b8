import Mathlib.Tactic.Ring
import TableDialects.Decimal.Numeral
import TableDialects.Proofs.Text.LetterCase
import TableDialects.Proofs.Token.Quoted

/- Decimal numerals read back. The digits of a number, a minus sign before a
   negative one, are read as that number as long as there are not too many of
   them (`toInt?_ofInt`); with a zero fraction behind they are no integer
   numeral but a decimal (`toInt?_zeroFraction`, `toDouble?_zeroFraction`). -/
namespace TableDialects.Numeral

/-! ## Characters of plain numerals -/

/-- Whether the character belongs to a numeral without blanks, breaks and letters. -/
def isPlain (c : Char) : Bool := isAsciiDigit c || c == '-' || c == '.'

theorem isAsciiDigit_iff {c : Char} : isAsciiDigit c = true ↔ 48 ≤ c.toNat ∧ c.toNat ≤ 57 := by
  unfold isAsciiDigit asciiDigit?
  dsimp only
  split
  · rename_i h
    exact iff_of_true rfl (by simpa only [Bool.and_eq_true, decide_eq_true_eq] using h)
  · rename_i h
    exact iff_of_false Bool.false_ne_true (by simpa only [Bool.and_eq_true, decide_eq_true_eq] using h)

theorem isPlain_facts {c : Char} (h : isPlain c = true) :
    plainChar c = c ∧ isSpace c = false ∧ c ≠ '_' ∧ c ≠ 'i' ∧ c ≠ 'n' ∧ Text.Settled c := by
  have hascii : c.toNat < 128 := by
    simp only [isPlain, Bool.or_eq_true, beq_iff_eq, isAsciiDigit_iff] at h
    rcases h with (h | rfl) | rfl
    · omega
    · decide
    · decide
  refine ⟨?_, ?_⟩
  · unfold plainChar
    rw [if_pos hascii]
  · exact Text.of_ascii
      (p := fun c => isPlain c = true → isSpace c = false ∧ c ≠ '_' ∧ c ≠ 'i' ∧ c ≠ 'n' ∧
        (Text.lowerChar c = [c] ∧ c ≠ 'Σ'))
      (by decide) hascii h

theorem isPlain_of_isAsciiDigit {c : Char} (h : isAsciiDigit c = true) : isPlain c = true := by
  rw [isPlain, h]
  rfl

theorem ne_of_isAsciiDigit {c d : Char} (hc : isAsciiDigit c = true) (hd : isAsciiDigit d = false) :
    c ≠ d := by
  rintro rfl
  rw [hc] at hd
  cases hd

theorem plainText_eq_self {s : Text} (h : ∀ c ∈ s, isPlain c = true) : plainText s = s := by
  have hmap : s.map plainChar = s := by
    rw [List.map_congr_left fun c hc => (isPlain_facts (h c hc)).1, List.map_id']
  unfold plainText
  rw [hmap, trim_eq_self_iff]
  constructor
  · intro c hc
    exact (isPlain_facts (h c (List.mem_of_mem_head? hc))).2.1
  · intro c hc
    exact (isPlain_facts (h c (List.mem_reverse.1 (List.mem_of_mem_head? hc)))).2.1

theorem breaksOk_of_plain {s : Text} (h : ∀ c ∈ s, isPlain c = true) (before : Bool) :
    breaksOk before s = true := by
  induction s generalizing before with
  | nil => rfl
  | cons c s ih =>
    have hc : c ≠ '_' := (isPlain_facts (h c List.mem_cons_self)).2.2.1
    rw [breaksOk]
    · exact ih (fun d hd => h d (List.mem_cons_of_mem c hd)) _
    · exact hc

theorem dropBreaks?_of_plain {s : Text} (h : ∀ c ∈ s, isPlain c = true) : dropBreaks? s = some s := by
  have hfilter : s.filter (· != '_') = s :=
    List.filter_eq_self.2 fun c hc => by simpa using (isPlain_facts (h c hc)).2.2.1
  rw [dropBreaks?, if_pos (breaksOk_of_plain h false), hfilter]

/-! ## Signs and digits -/

/-- The text with a minus sign before it if `negative` says so. -/
def signed (negative : Bool) (s : Text) : Text := if negative then '-' :: s else s

/-- The number with the sign that `negative` gives. -/
def withSign (negative : Bool) (n : Nat) : Int := if negative then -(n : Int) else n

theorem withSign_natAbs (n : Int) : withSign (decide (n < 0)) n.natAbs = n := by
  unfold withSign
  split
  · rename_i h
    have := of_decide_eq_true h
    omega
  · rename_i h
    have := of_decide_eq_false (Bool.eq_false_iff.2 h)
    omega

theorem ofInt_eq_signed (n : Int) : Text.ofInt n = signed (decide (n < 0)) (Text.ofNat n.natAbs) := by
  cases n with
  | ofNat n =>
    have hn : decide ((Int.ofNat n) < 0) = false := decide_eq_false (by simp)
    rw [hn]
    rfl
  | negSucc n =>
    rw [decide_eq_true (Int.negSucc_lt_zero n)]
    rfl

def startsDigit (s : Text) : Bool := s.head?.any isAsciiDigit

theorem splitSign_signed {negative : Bool} {s : Text} (hs : startsDigit s = true) :
    splitSign (signed negative s) = (negative, s) := by
  cases negative with
  | true => rfl
  | false =>
    show splitSign s = _
    unfold splitSign
    split
    · cases hs
    · cases hs
    · rfl

theorem isAsciiDigit_ofNat {n : Nat} : ∀ c ∈ Text.ofNat n, isAsciiDigit c = true := by
  intro c hc
  have hdigit := Nat.isDigit_of_mem_toDigits (by decide) (by decide) hc
  simp only [Char.isDigit, Bool.and_eq_true, decide_eq_true_eq] at hdigit
  exact isAsciiDigit_iff.2 hdigit

theorem startsDigit_append {digits : Text} (hne : digits ≠ []) (h : ∀ c ∈ digits, isAsciiDigit c = true)
    (s : Text) : startsDigit (digits ++ s) = true := by
  cases digits with
  | nil => exact absurd rfl hne
  | cons c digits => exact h c List.mem_cons_self

theorem digitValue_of_isAsciiDigit {c : Char} (h : isAsciiDigit c = true) :
    (asciiDigit? c).getD 0 = c.toNat - '0'.toNat := by
  have hbounds := isAsciiDigit_iff.1 h
  simp [asciiDigit?, hbounds]

def pushDigit (n : Nat) (c : Char) : Nat := 10 * n + (asciiDigit? c).getD 0

theorem foldl_pushDigit {digits : Text} (h : ∀ c ∈ digits, isAsciiDigit c = true) (n : Nat) :
    digits.foldl pushDigit n = Nat.ofDigitChars 10 digits n := by
  induction digits generalizing n with
  | nil => rfl
  | cons c digits ih =>
    rw [List.foldl_cons, Nat.ofDigitChars_cons, pushDigit, digitValue_of_isAsciiDigit (h c List.mem_cons_self)]
    exact ih (fun d hd => h d (List.mem_cons_of_mem c hd)) _

theorem foldl_pushDigit_lt {digits : Text} (h : ∀ c ∈ digits, isAsciiDigit c = true) (n : Nat) :
    digits.foldl pushDigit n < (n + 1) * 10 ^ digits.length := by
  induction digits generalizing n with
  | nil =>
    rw [List.foldl_nil, List.length_nil, pow_zero]
    omega
  | cons c digits ih =>
    have hstep : pushDigit n c + 1 ≤ (n + 1) * 10 := by
      have hbounds := isAsciiDigit_iff.1 (h c List.mem_cons_self)
      have hzero : '0'.toNat = 48 := rfl
      rw [pushDigit, digitValue_of_isAsciiDigit (h c List.mem_cons_self)]
      omega
    calc (c :: digits).foldl pushDigit n
        < (pushDigit n c + 1) * 10 ^ digits.length :=
          ih (fun d hd => h d (List.mem_cons_of_mem c hd)) _
      _ ≤ (n + 1) * 10 * 10 ^ digits.length := Nat.mul_le_mul_right _ hstep
      _ = (n + 1) * 10 ^ (c :: digits).length := by
        rw [List.length_cons, pow_succ]
        ring

theorem ofDigits_ofNat (n : Nat) : ofDigits (Text.ofNat n) = n :=
  (foldl_pushDigit isAsciiDigit_ofNat 0).trans (Nat.ofDigitChars_toDigits (by decide) (by decide))

theorem ofDigits_lt {digits : Text} (h : ∀ c ∈ digits, isAsciiDigit c = true) :
    ofDigits digits < 10 ^ digits.length := by
  have hlt := foldl_pushDigit_lt h 0
  rwa [Nat.zero_add, Nat.one_mul] at hlt

theorem ofDigits_append_zero (digits : Text) : ofDigits (digits ++ ['0']) = 10 * ofDigits digits := by
  unfold ofDigits
  rw [List.foldl_append]
  rfl

/-! ## Integers -/

/-- A signed text of plain characters that starts with a digit is read as it stands,
with its sign split off. -/
theorem splitSign_plain {s : Text} (hs : startsDigit s = true) (h : ∀ c ∈ s, isPlain c = true)
    (negative : Bool) :
    plainText (signed negative s) = signed negative s ∧
      dropBreaks? (signed negative s) = some (signed negative s) ∧
      splitSign (signed negative s) = (negative, s) ∧ dropBreaks? s = some s := by
  have hplain : ∀ c ∈ signed negative s, isPlain c = true := by
    intro c hc
    cases negative with
    | false => exact h c hc
    | true =>
      rcases List.mem_cons.1 hc with rfl | hc
      · rfl
      · exact h c hc
  exact ⟨plainText_eq_self hplain, dropBreaks?_of_plain hplain, splitSign_signed hs, dropBreaks?_of_plain h⟩

/-- A plain text as an integer: it must be digits, and not too many. -/
theorem toInt?_plain {s : Text} (hs : startsDigit s = true) (h : ∀ c ∈ s, isPlain c = true)
    (negative : Bool) :
    toInt? (signed negative s) =
      if !s.all isAsciiDigit || decide (digitLimit < s.length) then none
      else some (withSign negative (ofDigits s)) := by
  obtain ⟨hplain, -, hsplit, hdrop⟩ := splitSign_plain hs h negative
  have hne : s.isEmpty = false := by
    cases s with
    | nil => cases hs
    | cons c s => rfl
  unfold toInt?
  rw [hplain, hsplit]
  dsimp only
  rw [hdrop]
  dsimp only
  rw [hne, Bool.false_or]
  rfl

theorem toInt?_signed {digits : Text} (hne : digits ≠ []) (h : ∀ c ∈ digits, isAsciiDigit c = true)
    (negative : Bool) :
    toInt? (signed negative digits) =
      if digitLimit < digits.length then none else some (withSign negative (ofDigits digits)) := by
  have hs := startsDigit_append hne h []
  rw [List.append_nil] at hs
  rw [toInt?_plain hs (fun c hc => isPlain_of_isAsciiDigit (h c hc)), List.all_eq_true.2 h, Bool.not_true,
    Bool.false_or]
  exact ite_congr decide_eq_true_eq (fun _ => rfl) fun _ => rfl

/-- An integer is read back from its own digits unless there are too many. -/
theorem toInt?_ofInt (n : Int) : toInt? (Text.ofInt n) =
    if digitLimit < (Text.ofNat n.natAbs).length then none else some n := by
  have hne : Text.ofNat n.natAbs ≠ [] := Nat.toDigits_ne_nil
  rw [ofInt_eq_signed, toInt?_signed hne isAsciiDigit_ofNat, ofDigits_ofNat, withSign_natAbs]

/-- What is read as an integer has no more digits than may be read. -/
theorem length_of_toInt? {s : Text} {n : Int} (h : toInt? s = some n) :
    (Text.ofNat n.natAbs).length ≤ digitLimit := by
  unfold toInt? at h
  dsimp only at h
  split at h
  · cases h
  · rename_i digits hdigits
    split at h
    · cases h
    · rename_i hcond
      simp only [Bool.or_eq_true, not_or, List.isEmpty_iff, Bool.not_eq_true', Bool.not_eq_false,
        decide_eq_true_eq, Nat.not_lt, List.all_eq_true] at hcond
      obtain ⟨⟨hne, hall⟩, hlength⟩ := hcond
      have habs : n.natAbs = ofDigits digits := by
        cases h
        split <;> omega
      rw [habs]
      exact Nat.le_trans ((Nat.length_toDigits_le_iff (by decide) (List.length_pos_iff.2 hne)).2
        (ofDigits_lt hall)) hlength

/-! ## Decimals -/

theorem toDouble?_plain {s : Text} (hs : startsDigit s = true) (h : ∀ c ∈ s, isPlain c = true)
    (negative : Bool) :
    toDouble? (signed negative s) = match decimal? s with
      | some (m, e) => some (.ofDecimal negative m e)
      | none => none := by
  obtain ⟨hplain, hdrop, hsplit, -⟩ := splitSign_plain hs h negative
  have hlower : Text.lower s = s :=
    Text.lower_of_settled fun d hd => (isPlain_facts (h d hd)).2.2.2.2.2
  -- The names of the values that are no decimals start with a letter.
  have hname : ∀ name : Text, startsDigit name = false → (s == name) = false := by
    intro name hname
    rw [beq_eq_false_iff_ne]
    rintro rfl
    rw [hs] at hname
    cases hname
  unfold toDouble?
  rw [hplain, hdrop]
  dsimp only
  rw [hsplit]
  dsimp only
  rw [hlower, hname "inf".toList (by decide), hname "infinity".toList (by decide),
    hname "nan".toList (by decide)]
  rfl

theorem spanDigits_append {digits s : Text} (h : ∀ c ∈ digits, isAsciiDigit c = true)
    (hs : Stops isAsciiDigit s) : spanDigits (digits ++ s) = (digits, s) := by
  unfold spanDigits
  rw [hs.takeWhile_append h, hs.dropWhile_append h]

theorem isPlain_ofNat (n : Nat) : ∀ c ∈ Text.ofNat n, isPlain c = true :=
  fun c hc => isPlain_of_isAsciiDigit (isAsciiDigit_ofNat c hc)

def zeroFraction (s : Text) : Text := s ++ ".0".toList

theorem isPlain_zeroFraction (n : Nat) : ∀ c ∈ zeroFraction (Text.ofNat n), isPlain c = true := by
  intro c hc
  rcases List.mem_append.1 hc with hc | hc
  · exact isPlain_ofNat n c hc
  · exact (by decide : ∀ c ∈ ".0".toList, isPlain c = true) c hc

theorem decimal?_ofNat (n : Nat) : decimal? (Text.ofNat n) = some (n, 0) := by
  have hne : (Text.ofNat n).isEmpty = false := List.isEmpty_eq_false_iff.2 Nat.toDigits_ne_nil
  have hspan := spanDigits_append (isAsciiDigit_ofNat (n := n)) (stops_nil _)
  rw [List.append_nil] at hspan
  unfold decimal?
  rw [hspan]
  show (if (Text.ofNat n).isEmpty && true then none else some (ofDigits (Text.ofNat n ++ []), (0 : Int) - 0)) = _
  rw [hne, List.append_nil, ofDigits_ofNat]
  rfl

theorem toDouble?_ofInt (n : Int) : toDouble? (Text.ofInt n) =
    some (.ofDecimal (decide (n < 0)) n.natAbs 0) := by
  have hs : startsDigit (Text.ofNat n.natAbs) = true := by
    rw [← List.append_nil (Text.ofNat n.natAbs)]
    exact startsDigit_append Nat.toDigits_ne_nil isAsciiDigit_ofNat []
  rw [ofInt_eq_signed, toDouble?_plain hs (isPlain_ofNat _), decimal?_ofNat]

theorem zeroFraction_ofInt (n : Int) : zeroFraction (Text.ofInt n) =
    signed (decide (n < 0)) (zeroFraction (Text.ofNat n.natAbs)) := by
  rw [ofInt_eq_signed]
  cases decide (n < 0) <;> rfl

theorem decimal?_zeroFraction (n : Nat) : decimal? (zeroFraction (Text.ofNat n)) = some (10 * n, -1) := by
  have hne : Text.ofNat n ≠ [] := Nat.toDigits_ne_nil
  have hspan : spanDigits (zeroFraction (Text.ofNat n)) = (Text.ofNat n, ".0".toList) :=
    spanDigits_append isAsciiDigit_ofNat (stops_cons.2 (by decide))
  have hdigits : ofDigits (Text.ofNat n ++ ['0']) = 10 * n := by
    rw [ofDigits_append_zero, ofDigits_ofNat]
  unfold decimal?
  rw [hspan]
  show (if (Text.ofNat n).isEmpty && false then none else some (ofDigits (Text.ofNat n ++ ['0']), (0 : Int) - 1)) = _
  rw [hdigits, Bool.and_false]
  rfl

theorem startsDigit_zeroFraction (n : Nat) : startsDigit (zeroFraction (Text.ofNat n)) = true :=
  startsDigit_append Nat.toDigits_ne_nil isAsciiDigit_ofNat _

theorem toInt?_zeroFraction (n : Int) : toInt? (zeroFraction (Text.ofInt n)) = none := by
  have hpoint : (zeroFraction (Text.ofNat n.natAbs)).all isAsciiDigit = false := by
    rw [List.all_eq_false]
    exact ⟨'.', List.mem_append_right _ List.mem_cons_self, by decide⟩
  rw [zeroFraction_ofInt, toInt?_plain (startsDigit_zeroFraction _) (isPlain_zeroFraction _), hpoint]
  rfl

/-- An integer with a zero fraction is a decimal: ten times the integer, divided by
ten. -/
theorem toDouble?_zeroFraction (n : Int) : toDouble? (zeroFraction (Text.ofInt n)) =
    some (.ofDecimal (decide (n < 0)) (10 * n.natAbs) (-1)) := by
  rw [zeroFraction_ofInt, toDouble?_plain (startsDigit_zeroFraction _) (isPlain_zeroFraction _),
    decimal?_zeroFraction]

end TableDialects.Numeral
