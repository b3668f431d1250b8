import TableDialects.Proofs.Decimal.Numeral
import TableDialects.Value.Json

/- Compact JSON reads back. A value that reading can give, and that holds no
   float, is written as a text from which the same value is read again
   (`ofJson_toJson`). `Readable room v` collects what such a value owes to the
   reader: its integers are not too long, its objects have each key once, and its
   brackets stand in one another no deeper than `room`; `readable_of_readJson`
   says that the reader leaves no other values. -/
namespace TableDialects.Value

/-! ## Strings -/

theorem unitHex_facts : ∀ n < 32, ∃ a b, unitHex n = ['0', '0', a, b] ∧ hex4? '0' '0' a b = some n := by
  intro n hn
  refine ⟨(unitHex n).getD 2 '0', (unitHex n).getD 3 '0', ?_⟩
  revert n
  decide +kernel

theorem stringUnits?_plain {c : Char} (hc : ¬c.toNat < 32) (hquote : c ≠ '"') (hslash : c ≠ '\\') (s : Text) :
    stringUnits? (c :: s) = (stringUnits? s).map fun p => (c.toNat :: p.1, p.2) := by
  rw [stringUnits?]
  · rw [if_neg (by simp [hc, hslash])]
    cases stringUnits? s <;> rfl
  all_goals simp_all

theorem stringUnits?_escaped {c : Char} {n : Nat} (h : unescape? c = some n) (s : Text) :
    stringUnits? ('\\' :: c :: s) = (stringUnits? s).map fun p => (n :: p.1, p.2) := by
  have hu : c ≠ 'u' := by
    rintro rfl
    cases h
  rw [stringUnits?]
  · rw [h]
    cases stringUnits? s <;> rfl
  all_goals simp_all

theorem stringUnits?_hex {a b c d : Char} {n : Nat} (h : hex4? a b c d = some n) (s : Text) :
    stringUnits? ('\\' :: 'u' :: a :: b :: c :: d :: s) = (stringUnits? s).map fun p => (n :: p.1, p.2) := by
  rw [stringUnits?, h]
  cases stringUnits? s <;> rfl

/-- Characters that are escaped by a letter of their own. -/
def escapedChars : List Char := ['"', '\\', '\n', '\r', '\t', Char.ofNat 8, Char.ofNat 12]

theorem jsonEscape?_special {c : Char} (h : c ∈ escapedChars) :
    ∃ d, jsonEscape? c = some ['\\', d] ∧ unescape? d = some c.toNat := by
  unfold escapedChars at h
  simp only [List.mem_cons, List.not_mem_nil, or_false] at h
  rcases h with rfl | rfl | rfl | rfl | rfl | rfl | rfl
  · exact ⟨'"', by decide⟩
  · exact ⟨'\\', by decide⟩
  · exact ⟨'n', by decide⟩
  · exact ⟨'r', by decide⟩
  · exact ⟨'t', by decide⟩
  · exact ⟨'b', by decide⟩
  · exact ⟨'f', by decide⟩

theorem jsonEscape?_other {c : Char} (h : c ∉ escapedChars) :
    jsonEscape? c = if c.toNat < 32 then some ("\\u".toList ++ unitHex c.toNat) else none := by
  have hcode : ∀ n, Char.ofNat n ∈ escapedChars → c.toNat ≠ n := by
    rintro n hn rfl
    rw [Char.ofNat_toNat] at hn
    exact h hn
  have height := hcode 8 (by decide)
  have htwelve := hcode 12 (by decide)
  simp only [escapedChars, List.mem_cons, List.not_mem_nil, or_false, not_or] at h
  simp [jsonEscape?, h, height, htwelve]

theorem stringUnits?_escape (c : Char) (s : Text) :
    stringUnits? ((jsonEscape? c).getD [c] ++ s) = (stringUnits? s).map fun p => (c.toNat :: p.1, p.2) := by
  by_cases hspecial : c ∈ escapedChars
  · obtain ⟨d, hd, hn⟩ := jsonEscape?_special hspecial
    rw [hd]
    exact stringUnits?_escaped hn s
  · rw [jsonEscape?_other hspecial]
    by_cases hcontrol : c.toNat < 32
    · obtain ⟨a, b, hdigits, hn⟩ := unitHex_facts c.toNat hcontrol
      rw [if_pos hcontrol, hdigits]
      exact stringUnits?_hex hn s
    · rw [if_neg hcontrol]
      refine stringUnits?_plain hcontrol ?_ ?_ s
      · rintro rfl
        exact hspecial (by decide)
      · rintro rfl
        exact hspecial (by decide)

theorem stringUnits?_written (s rest : Text) :
    stringUnits? (s.flatMap (fun c => (jsonEscape? c).getD [c]) ++ '"' :: rest) =
      some (s.map Char.toNat, rest) := by
  induction s with
  | nil => rfl
  | cons c s ih =>
    rw [List.flatMap_cons, List.append_assoc, stringUnits?_escape, ih]
    rfl

theorem toNat_cases (c : Char) : c.toNat < 0xD800 ∨ 0xDFFF < c.toNat :=
  c.valid.imp id fun h => h.1

theorem unitChar_toNat (c : Char) : unitChar c.toNat = c := by
  have hvalid : c.toNat.isValidChar := c.valid
  rw [unitChar, if_pos hvalid, Char.ofNat_toNat]

/-- No code of a character is half a surrogate pair, so codes are joined one by one. -/
theorem joinUnits_toNat (s : Text) : joinUnits (s.map Char.toNat) = s := by
  induction s with
  | nil => rfl
  | cons c s ih =>
    cases s with
    | nil => exact congrArg (fun d => [d]) (unitChar_toNat c)
    | cons d s =>
      have hc := toNat_cases c
      rw [List.map_cons, List.map_cons, joinUnits, if_neg, unitChar_toNat]
      · exact congrArg (c :: ·) ih
      · simp only [Bool.and_eq_true, decide_eq_true_eq]
        omega

theorem jsonString?_written (s rest : Text) :
    jsonString? (s.flatMap (fun c => (jsonEscape? c).getD [c]) ++ '"' :: rest) = some (s, rest) := by
  unfold jsonString?
  rw [stringUnits?_written]
  exact congrArg (fun t => some (t, rest)) (joinUnits_toNat s)

theorem jsonText_append (s rest : Text) : jsonText s ++ rest =
    '"' :: (s.flatMap (fun c => (jsonEscape? c).getD [c]) ++ '"' :: rest) := by
  unfold jsonText
  rw [List.cons_append, List.cons_append, List.append_assoc]
  rfl

/-! ## Integers -/

def continuesNumber (c : Char) : Bool := Numeral.isAsciiDigit c || c == '.' || c == 'e' || c == 'E'

theorem stops_digit {s : Text} (h : Stops continuesNumber s) : Stops Numeral.isAsciiDigit s := by
  intro c hc
  have := h c hc
  simp only [continuesNumber, Bool.or_eq_false_iff] at this
  exact this.1.1.1

theorem fractionDigits_stops {s : Text} (h : Stops continuesNumber s) : fractionDigits s = ([], s) := by
  cases s with
  | nil => rfl
  | cons c s =>
    have hc := stops_cons.1 h
    simp only [continuesNumber, Bool.or_eq_false_iff, beq_eq_false_iff_ne] at hc
    unfold fractionDigits
    split
    · rename_i heq
      exact absurd (List.cons.inj heq).1 hc.1.1.2
    · rfl

theorem exponentDigits_stops {s : Text} (h : Stops continuesNumber s) : exponentDigits s = ([], s) := by
  cases s with
  | nil => rfl
  | cons c s =>
    have hc := stops_cons.1 h
    simp only [continuesNumber, Bool.or_eq_false_iff] at hc
    unfold exponentDigits
    dsimp only
    rw [hc.1.2, hc.2]
    rfl

/-- The digits of a number other than zero do not start with a zero. -/
theorem head_ofNat_ne_zero (n : Nat) (hn : 0 < n) : (Text.ofNat n).head? ≠ some '0' := by
  induction n using Nat.strongRecOn with
  | _ n ih =>
    by_cases hsmall : n < 10
    · have hdigits : ∀ n < 10, 0 < n → (Text.ofNat n).head? ≠ some '0' := by decide
      exact hdigits n hsmall hn
    · have hsplit : Text.ofNat n = Text.ofNat (n / 10) ++ [(n % 10).digitChar] :=
        Nat.toDigits_of_base_le (by decide) (Nat.not_lt.1 hsmall)
      have hne : Text.ofNat (n / 10) ≠ [] := Nat.toDigits_ne_nil
      obtain ⟨c, s, hs⟩ := List.exists_cons_of_ne_nil hne
      have hrest := ih (n / 10) (by omega) (by omega)
      rw [hs] at hrest
      rwa [hsplit, hs]

theorem wholeDigits?_ofNat (n : Nat) {rest : Text} (h : Stops continuesNumber rest) :
    wholeDigits? (Text.ofNat n ++ rest) = some (Text.ofNat n, rest) := by
  have hdigits : ∀ c ∈ Text.ofNat n, Numeral.isAsciiDigit c = true := Numeral.isAsciiDigit_ofNat
  have hspan := Numeral.spanDigits_append hdigits (stops_digit h)
  rcases Nat.eq_zero_or_pos n with rfl | hn
  · rfl
  · have hhead := head_ofNat_ne_zero n hn
    cases hs : Text.ofNat n with
    | nil => exact absurd hs Nat.toDigits_ne_nil
    | cons c s =>
      rw [hs] at hhead hspan hdigits
      have hc : (c == '0') = false := beq_eq_false_iff_ne.2 fun hzero => hhead (congrArg some hzero)
      unfold wholeDigits?
      rw [List.cons_append]
      dsimp only
      rw [hc, hdigits c List.mem_cons_self, ← List.cons_append, hspan]
      rfl

theorem jsonNumber_of_whole {negative : Bool} {digits rest : Text} {n : Int}
    (hwhole : wholeDigits? (digits ++ rest) = some (digits, rest)) (hstart : Numeral.startsDigit digits = true)
    (hint : Numeral.toInt? (Numeral.signed negative digits) = some n) (h : Stops continuesNumber rest) :
    jsonNumber (Numeral.signed negative digits ++ rest) = .ok (.int n, rest) := by
  cases negative with
  | true =>
    have hsigned : Numeral.signed true digits = '-' :: digits := rfl
    rw [hsigned] at hint ⊢
    simp [jsonNumber, hwhole, hint, fractionDigits_stops h, exponentDigits_stops h]
  | false =>
    have hsigned : Numeral.signed false digits = digits := rfl
    rw [hsigned] at hint ⊢
    cases digits with
    | nil => cases hstart
    | cons c digits =>
      have hc : c ≠ '-' := Numeral.ne_of_isAsciiDigit hstart (by decide)
      rw [List.cons_append] at hwhole
      simp [jsonNumber, hc, hwhole, hint, fractionDigits_stops h, exponentDigits_stops h]

theorem jsonNumber_ofInt {n : Int} (hn : (Text.ofNat n.natAbs).length ≤ Numeral.digitLimit) {rest : Text}
    (h : Stops continuesNumber rest) : jsonNumber (Text.ofInt n ++ rest) = .ok (.int n, rest) := by
  have hint := Numeral.toInt?_ofInt n
  have hstart := Numeral.startsDigit_append (Nat.toDigits_ne_nil (n := n.natAbs)) Numeral.isAsciiDigit_ofNat []
  rw [List.append_nil] at hstart
  rw [if_neg (Nat.not_lt.2 hn), Numeral.ofInt_eq_signed] at hint
  rw [Numeral.ofInt_eq_signed]
  exact jsonNumber_of_whole (wholeDigits?_ofNat _ h) hstart hint h

/-! ## Values that reading gives -/

/-- The value is built from null, truth values, integers, texts, arrays and objects. -/
inductive Plain : Value → Prop
  | null : Plain .null
  | bool (b : Bool) : Plain (.bool b)
  | int (n : Int) : Plain (.int n)
  | text (s : Text) : Plain (.text s)
  | list {items : List Value} (h : ∀ v ∈ items, Plain v) : Plain (.list items)
  | dict {entries : List (Text × Value)} (h : ∀ e ∈ entries, Plain e.2) : Plain (.dict entries)

/-- The value is plain, and what is read with `room` for brackets can be such a value:
integers have no more digits than may be read, and objects have each key once. -/
inductive Readable : Nat → Value → Prop
  | null (room : Nat) : Readable room .null
  | bool (room : Nat) (b : Bool) : Readable room (.bool b)
  | int (room : Nat) {n : Int} (h : (Text.ofNat n.natAbs).length ≤ Numeral.digitLimit) : Readable room (.int n)
  | text (room : Nat) (s : Text) : Readable room (.text s)
  | list {room : Nat} {items : List Value} (h : ∀ v ∈ items, Readable room v) : Readable (room + 1) (.list items)
  | dict {room : Nat} {entries : List (Text × Value)} (hkeys : (entries.map Prod.fst).Nodup)
    (h : ∀ e ∈ entries, Readable room e.2) : Readable (room + 1) (.dict entries)

/-! ### Objects -/

theorem mem_setEntry {key : Text} {v : Value} {entries : List (Text × Value)} {e : Text × Value}
    (h : e ∈ setEntry key v entries) : e = (key, v) ∨ e ∈ entries := by
  induction entries with
  | nil => exact .inl (List.mem_singleton.1 h)
  | cons f entries ih =>
    rw [setEntry] at h
    split at h
    · exact (List.mem_cons.1 h).imp_right (List.mem_cons_of_mem f)
    · rcases List.mem_cons.1 h with rfl | h
      · exact .inr List.mem_cons_self
      · exact (ih h).imp_right (List.mem_cons_of_mem f)

theorem setEntry_of_not_mem {key : Text} {entries : List (Text × Value)} (h : key ∉ entries.map Prod.fst)
    (v : Value) : setEntry key v entries = entries ++ [(key, v)] := by
  induction entries with
  | nil => rfl
  | cons e entries ih =>
    rw [List.map_cons, List.mem_cons, not_or] at h
    rw [setEntry, if_neg (by simpa using Ne.symm h.1), ih h.2]
    rfl

theorem keys_setEntry {key : Text} {v : Value} {entries : List (Text × Value)}
    (h : key ∈ entries.map Prod.fst) : (setEntry key v entries).map Prod.fst = entries.map Prod.fst := by
  induction entries with
  | nil => cases h
  | cons e entries ih =>
    rw [setEntry]
    split
    · rename_i heq
      rw [List.map_cons, List.map_cons, eq_of_beq heq]
    · rename_i hne
      rw [List.map_cons, List.map_cons, ih]
      rw [List.map_cons, List.mem_cons] at h
      exact h.resolve_left fun heq => hne (by simp [heq])

theorem nodup_setEntry (key : Text) (v : Value) {entries : List (Text × Value)}
    (h : (entries.map Prod.fst).Nodup) : ((setEntry key v entries).map Prod.fst).Nodup := by
  by_cases hkey : key ∈ entries.map Prod.fst
  · rwa [keys_setEntry hkey]
  · rw [setEntry_of_not_mem hkey, List.map_append, List.nodup_append]
    refine ⟨h, List.nodup_cons.2 ⟨List.not_mem_nil, List.nodup_nil⟩, ?_⟩
    intro a ha b hb
    rw [List.map_singleton, List.mem_singleton] at hb
    subst hb
    exact fun heq => hkey (heq ▸ ha)

theorem setEntries_facts (entries more : List (Text × Value))
    (h : (entries.map Prod.fst).Nodup) : ((setEntries entries more).map Prod.fst).Nodup ∧
      ∀ e ∈ setEntries entries more, e ∈ entries ∨ e ∈ more := by
  induction more generalizing entries with
  | nil => exact ⟨h, fun e he => .inl he⟩
  | cons f more ih =>
    obtain ⟨hkeys, hmem⟩ := ih _ (nodup_setEntry f.1 f.2 h)
    refine ⟨hkeys, fun e he => ?_⟩
    rcases hmem e he with he | he
    · rcases mem_setEntry he with rfl | he
      · exact .inr List.mem_cons_self
      · exact .inl he
    · exact .inr (List.mem_cons_of_mem f he)

theorem setEntries_of_nodup (entries more : List (Text × Value))
    (h : ((entries ++ more).map Prod.fst).Nodup) : setEntries entries more = entries ++ more := by
  induction more generalizing entries with
  | nil => exact (List.append_nil entries).symm
  | cons f more ih =>
    have hsplit : entries ++ f :: more = entries ++ [f] ++ more := by
      rw [List.append_assoc]
      rfl
    have hnew : f.1 ∉ entries.map Prod.fst := by
      rw [List.map_append, List.nodup_append] at h
      exact fun hmem => h.2.2 f.1 hmem f.1 List.mem_cons_self rfl
    show setEntries (setEntry f.1 f.2 entries) more = _
    rw [setEntry_of_not_mem hnew, hsplit]
    rw [hsplit] at h
    exact ih _ h

/-! ### Reading -/

theorem mem_of_jsonWord? {words : List (String × Value)} {s rest : Text} {v : Value}
    (h : jsonWord? words s = some (v, rest)) : ∃ word, (word, v) ∈ words := by
  induction words with
  | nil => cases h
  | cons w words ih =>
    obtain ⟨word, u⟩ := w
    rw [jsonWord?] at h
    split at h
    · cases h
      exact ⟨word, List.mem_cons_self⟩
    · obtain ⟨other, hother⟩ := ih h
      exact ⟨other, List.mem_cons_of_mem _ hother⟩

theorem readable_of_jsonWord? {s rest : Text} {v : Value} (h : jsonWord? jsonWords s = some (v, rest))
    (hv : Plain v) (room : Nat) : Readable room v := by
  obtain ⟨word, hmem⟩ := mem_of_jsonWord? h
  unfold jsonWords at hmem
  simp only [List.mem_cons, Prod.mk.injEq, List.not_mem_nil, or_false] at hmem
  rcases hmem with ⟨-, rfl⟩ | ⟨-, rfl⟩ | ⟨-, rfl⟩ | ⟨-, rfl⟩ | ⟨-, rfl⟩ | ⟨-, rfl⟩
  · exact .null room
  · exact .bool room true
  · exact .bool room false
  · cases hv
  · cases hv
  · cases hv

theorem readable_of_jsonNumber {s rest : Text} {v : Value} (h : jsonNumber s = .ok (v, rest)) (hv : Plain v)
    (room : Nat) : Readable room v := by
  unfold jsonNumber at h
  dsimp only at h
  split at h
  · cases h
  · split at h
    · split at h
      · rename_i n hn
        cases h
        exact .int room (Numeral.length_of_toInt? hn)
      · cases h
    · split at h
      · cases h
        cases hv
      · cases h

/-- What is read with more fuel: a string, an array or an object whose parts are read
with less, a word or a number. -/
theorem readJson_cases {fuel room : Nat} {s rest : Text} {v : Value}
    (h : readJson (fuel + 1) room s = .ok (v, rest)) :
    (∃ r t, s = '"' :: r ∧ jsonString? r = some (t, rest) ∧ v = .text t) ∨
    (∃ inner items, room = inner + 1 ∧ v = .list items ∧
      (items = [] ∨ ∃ r, readItems fuel inner r = .ok (items, rest))) ∨
    (∃ inner entries, room = inner + 1 ∧ v = .dict (setEntries [] entries) ∧
      (entries = [] ∨ ∃ r, readMembers fuel inner r = .ok (entries, rest))) ∨
    jsonWord? jsonWords s = some (v, rest) ∨ jsonNumber s = .ok (v, rest) := by
  unfold readJson at h
  split at h
  · cases h
  · -- a string
    split at h
    · rename_i t behind hstring
      cases h
      exact .inl ⟨_, t, rfl, hstring, rfl⟩
    · cases h
  · -- an array
    split at h
    · cases h
    · rename_i inner
      split at h
      · cases h
        exact .inr (.inl ⟨inner, [], rfl, rfl, .inl rfl⟩)
      · split at h
        · rename_i items behind hitems
          cases h
          exact .inr (.inl ⟨inner, items, rfl, rfl, .inr ⟨_, hitems⟩⟩)
        · cases h
  · -- an object
    split at h
    · cases h
    · rename_i inner
      split at h
      · cases h
        exact .inr (.inr (.inl ⟨inner, [], rfl, rfl, .inl rfl⟩))
      · split at h
        · rename_i entries behind hmembers
          cases h
          exact .inr (.inr (.inl ⟨inner, entries, rfl, rfl, .inr ⟨_, hmembers⟩⟩))
        · cases h
  · split at h
    · rename_i found hword
      cases h
      exact .inr (.inr (.inr (.inl hword)))
    · exact .inr (.inr (.inr (.inr h)))

theorem readItems_cases {fuel room : Nat} {s rest : Text} {vs : List Value}
    (h : readItems (fuel + 1) room s = .ok (vs, rest)) :
    ∃ v us behind, vs = v :: us ∧ readJson fuel room s = .ok (v, behind) ∧
      (us = [] ∨ ∃ r, readItems fuel room r = .ok (us, rest)) := by
  rw [readItems] at h
  split at h
  · cases h
  · rename_i v behind hv
    split at h
    · cases h
      exact ⟨v, [], behind, rfl, hv, .inl rfl⟩
    · split at h
      · rename_i us behind' hus
        cases h
        exact ⟨v, us, behind, rfl, hv, .inr ⟨_, hus⟩⟩
      · cases h
    · cases h

theorem readMembers_cases {fuel room : Nat} {s rest : Text} {es : List (Text × Value)}
    (h : readMembers (fuel + 1) room s = .ok (es, rest)) :
    ∃ key v fs r behind, es = (key, v) :: fs ∧ readJson fuel room r = .ok (v, behind) ∧
      (fs = [] ∨ ∃ r, readMembers fuel room r = .ok (fs, rest)) := by
  unfold readMembers at h
  split at h
  · split at h
    · cases h
    · rename_i key _ _
      split at h
      · split at h
        · cases h
        · rename_i v behind hv
          split at h
          · cases h
            exact ⟨key, v, [], _, behind, rfl, hv, .inl rfl⟩
          · split at h
            · rename_i fs _ hfs
              cases h
              exact ⟨key, v, fs, _, behind, rfl, hv, .inr ⟨_, hfs⟩⟩
            · cases h
          · cases h
      · cases h
  · cases h

/-- Reading leaves readable values, where they are plain: those of less fuel stand
inside those of more. -/
theorem readable_of_readJson (fuel : Nat) :
    (∀ {room : Nat} {s rest : Text} {v : Value}, readJson fuel room s = .ok (v, rest) → Plain v →
      Readable room v) ∧
    (∀ {room : Nat} {s rest : Text} {vs : List Value}, readItems fuel room s = .ok (vs, rest) →
      ∀ v ∈ vs, Plain v → Readable room v) ∧
    (∀ {room : Nat} {s rest : Text} {es : List (Text × Value)}, readMembers fuel room s = .ok (es, rest) →
      ∀ e ∈ es, Plain e.2 → Readable room e.2) := by
  induction fuel with
  | zero =>
    refine ⟨fun h => ?_, fun h => ?_, fun h => ?_⟩
    · rw [readJson] at h
      cases h
    · rw [readItems] at h
      cases h
    · rw [readMembers] at h
      cases h
  | succ fuel ih =>
    obtain ⟨ihJson, ihItems, ihMembers⟩ := ih
    refine ⟨fun {room s rest v} h hv => ?_, fun {room s rest vs} h => ?_, fun {room s rest es} h => ?_⟩
    · rcases readJson_cases h with ⟨_, t, -, -, rfl⟩ | ⟨inner, items, rfl, rfl, hitems⟩ |
        ⟨inner, entries, rfl, rfl, hmembers⟩ | hword | hnumber
      · exact .text room t
      · cases hv with
        | list hplain =>
          rcases hitems with rfl | ⟨r, hitems⟩
          · exact .list (List.forall_mem_nil _)
          · exact .list fun v hv => ihItems hitems v hv (hplain v hv)
      · obtain ⟨hkeys, hmem⟩ := setEntries_facts [] entries List.nodup_nil
        have hmem : ∀ e ∈ setEntries [] entries, e ∈ entries := fun e he =>
          (hmem e he).resolve_left List.not_mem_nil
        cases hv with
        | dict hplain =>
          refine .dict hkeys fun e he => ?_
          rcases hmembers with rfl | ⟨r, hmembers⟩
          · exact absurd (hmem e he) List.not_mem_nil
          · exact ihMembers hmembers e (hmem e he) (hplain e he)
      · exact readable_of_jsonWord? hword hv room
      · exact readable_of_jsonNumber hnumber hv room
    · obtain ⟨v, us, behind, rfl, hv, hus⟩ := readItems_cases h
      intro u hu
      rcases List.mem_cons.1 hu with rfl | hu
      · exact ihJson hv
      · rcases hus with rfl | ⟨r, hus⟩
        · cases hu
        · exact ihItems hus u hu
    · obtain ⟨key, v, fs, r, behind, rfl, hv, hfs⟩ := readMembers_cases h
      intro e he
      rcases List.mem_cons.1 he with rfl | he
      · exact ihJson hv
      · rcases hfs with rfl | ⟨r, hfs⟩
        · cases he
        · exact ihMembers hfs e he

/-! ## Values that are written -/

/-- The text starts a value, and is read as `v` in front of anything that does not go on
with a number. -/
structure Reads (room : Nat) (v : Value) (t : Text) : Prop where
  start : ∃ c r, t = c :: r ∧ isJsonSpace c = false ∧ c ≠ ']'
  read : ∀ {rest : Text}, Stops continuesNumber rest → ∀ {fuel : Nat}, 2 * t.length ≤ fuel →
    readJson fuel room (t ++ rest) = .ok (v, rest)

theorem skipSpace_of_stops {s : Text} (h : Stops isJsonSpace s) : skipSpace s = s := h.dropWhile_eq

theorem Reads.stops {room : Nat} {v : Value} {t : Text} (h : Reads room v t) (rest : Text) :
    Stops isJsonSpace (t ++ rest) := by
  obtain ⟨c, r, rfl, hc, -⟩ := h.start
  exact stops_cons.2 hc

/-! ### Single values -/

theorem reads_text (room : Nat) (s : Text) : Reads room (.text s) (jsonText s) where
  start := ⟨'"', _, rfl, by decide, by decide⟩
  read := by
    intro rest _ fuel hfuel
    rw [jsonText_append]
    cases fuel with
    | zero => exact absurd hfuel (by simp [jsonText])
    | succ fuel =>
      rw [readJson, jsonString?_written]

/-- Characters that start something other than a word or a number. -/
def openingChars : List Char := ['"', '[', '\x7b', ']']

theorem reads_other (room : Nat) {v : Value} {c : Char} {r : Text} (hc : c ∉ openingChars)
    (hspace : isJsonSpace c = false)
    (h : ∀ {rest : Text}, Stops continuesNumber rest → jsonWord? jsonWords (c :: r ++ rest) = some (v, rest) ∨
      jsonWord? jsonWords (c :: r ++ rest) = none ∧ jsonNumber (c :: r ++ rest) = .ok (v, rest)) :
    Reads room v (c :: r) where
  start := ⟨c, r, rfl, hspace, fun heq => hc (by simp [openingChars, heq])⟩
  read := by
    intro rest hrest fuel hfuel
    simp only [openingChars, List.mem_cons, List.not_mem_nil, or_false, not_or] at hc
    cases fuel with
    | zero => exact absurd hfuel (by simp)
    | succ fuel =>
      have hread := h hrest
      rw [List.cons_append] at hread ⊢
      rw [readJson]
      · rcases hread with hword | ⟨hword, hnumber⟩
        · rw [hword]
        · rw [hword]
          exact hnumber
      all_goals simp_all

theorem jsonWord?_none {words : List (String × Value)} {s : Text}
    (h : ∀ e ∈ words, Text.after? e.1.toList s = none) : jsonWord? words s = none := by
  induction words with
  | nil => rfl
  | cons e words ih =>
    obtain ⟨word, v⟩ := e
    rw [jsonWord?, h (word, v) List.mem_cons_self]
    exact ih fun f hf => h f (List.mem_cons_of_mem _ hf)

theorem jsonWords_letters : ∀ e ∈ jsonWords, ∃ c d r, e.1.toList = c :: d :: r ∧
    Numeral.isAsciiDigit c = false ∧ Numeral.isAsciiDigit d = false := by
  intro e he
  refine ⟨e.1.toList.getD 0 'a', e.1.toList.getD 1 'a', e.1.toList.drop 2, ?_⟩
  revert e
  decide

theorem jsonWord?_ofInt (n : Int) (rest : Text) : jsonWord? jsonWords (Text.ofInt n ++ rest) = none := by
  refine jsonWord?_none fun e he => ?_
  obtain ⟨c, d, r, hword, hc, hd⟩ := jsonWords_letters e he
  obtain ⟨a, s, hs⟩ := List.exists_cons_of_ne_nil (Nat.toDigits_ne_nil (n := n.natAbs) (b := 10))
  have ha : Numeral.isAsciiDigit a = true := Numeral.isAsciiDigit_ofNat a (hs ▸ List.mem_cons_self)
  have hdigits : Text.ofNat n.natAbs = a :: s := hs
  cases hafter : Text.after? e.1.toList (Text.ofInt n ++ rest) with
  | none => rfl
  | some behind =>
    have heq := Text.after?_eq_some hafter
    rw [hword, Numeral.ofInt_eq_signed, hdigits] at heq
    cases hneg : decide (n < 0) with
    | true =>
      rw [hneg] at heq
      have := (List.cons.inj (List.cons.inj heq).2).1
      exact absurd this (Numeral.ne_of_isAsciiDigit ha hd)
    | false =>
      rw [hneg] at heq
      have := (List.cons.inj heq).1
      exact absurd this (Numeral.ne_of_isAsciiDigit ha hc)

theorem reads_int (room : Nat) {n : Int} (hn : (Text.ofNat n.natAbs).length ≤ Numeral.digitLimit) :
    Reads room (.int n) (Text.ofInt n) := by
  have hstart : ∃ c r, Text.ofInt n = c :: r ∧ Numeral.isPlain c = true := by
    obtain ⟨c, s, hs⟩ := List.exists_cons_of_ne_nil (Nat.toDigits_ne_nil (n := n.natAbs) (b := 10))
    have hdigits : Text.ofNat n.natAbs = c :: s := hs
    rw [Numeral.ofInt_eq_signed, hdigits]
    cases decide (n < 0) with
    | true => exact ⟨'-', _, rfl, rfl⟩
    | false =>
      exact ⟨c, s, rfl, Numeral.isPlain_of_isAsciiDigit (Numeral.isAsciiDigit_ofNat c (hs ▸ List.mem_cons_self))⟩
  obtain ⟨c, r, hcr, hc⟩ := hstart
  have hnot : ∀ d, Numeral.isPlain d = false → c ≠ d := by
    rintro d hd rfl
    rw [hc] at hd
    cases hd
  rw [hcr]
  refine reads_other room ?_ ?_ fun {rest} hrest => ?_
  · simp only [openingChars, List.mem_cons, List.not_mem_nil, or_false, not_or]
    exact ⟨hnot _ (by decide), hnot _ (by decide), hnot _ (by decide), hnot _ (by decide)⟩
  · simp [isJsonSpace, hnot _ (show Numeral.isPlain ' ' = false by decide),
      hnot _ (show Numeral.isPlain '\t' = false by decide), hnot _ (show Numeral.isPlain '\n' = false by decide),
      hnot _ (show Numeral.isPlain '\r' = false by decide)]
  · rw [← hcr]
    exact .inr ⟨jsonWord?_ofInt n rest, jsonNumber_ofInt hn hrest⟩

/-! ### Arrays and objects -/

theorem readItems_last {fuel room : Nat} {s rest : Text} {v : Value}
    (h : readJson fuel room s = .ok (v, ']' :: rest)) : readItems (fuel + 1) room s = .ok ([v], rest) := by
  rw [readItems, h]
  rfl

theorem readItems_next {fuel room : Nat} {s r rest : Text} {v : Value} {vs : List Value}
    (h : readJson fuel room s = .ok (v, ',' :: r)) (hr : Stops isJsonSpace r)
    (hvs : readItems fuel room r = .ok (vs, rest)) : readItems (fuel + 1) room s = .ok (v :: vs, rest) := by
  have hcomma : skipSpace (',' :: r) = ',' :: r := skipSpace_of_stops (stops_cons.2 (by decide))
  simp [readItems, h, hcomma, skipSpace_of_stops hr, hvs]

theorem readMembers_last {fuel room : Nat} {key s rest : Text} {v : Value} (hs : Stops isJsonSpace s)
    (h : readJson fuel room s = .ok (v, '\x7d' :: rest)) :
    readMembers (fuel + 1) room (jsonText key ++ ':' :: s) = .ok ([(key, v)], rest) := by
  have hcolon : skipSpace (':' :: s) = ':' :: s := skipSpace_of_stops (stops_cons.2 (by decide))
  have hend : skipSpace ('\x7d' :: rest) = '\x7d' :: rest := skipSpace_of_stops (stops_cons.2 (by decide))
  rw [jsonText_append, readMembers, jsonString?_written]
  simp [hcolon, skipSpace_of_stops hs, h, hend]

theorem readMembers_next {fuel room : Nat} {key s r rest : Text} {v : Value} {es : List (Text × Value)}
    (hs : Stops isJsonSpace s) (h : readJson fuel room s = .ok (v, ',' :: r)) (hr : Stops isJsonSpace r)
    (hes : readMembers fuel room r = .ok (es, rest)) :
    readMembers (fuel + 1) room (jsonText key ++ ':' :: s) = .ok ((key, v) :: es, rest) := by
  have hcolon : skipSpace (':' :: s) = ':' :: s := skipSpace_of_stops (stops_cons.2 (by decide))
  have hcomma : skipSpace (',' :: r) = ',' :: r := skipSpace_of_stops (stops_cons.2 (by decide))
  rw [jsonText_append, readMembers, jsonString?_written]
  simp [hcolon, skipSpace_of_stops hs, h, hcomma, skipSpace_of_stops hr, hes]

theorem join_comma (p q : Text) (ps : List Text) :
    Text.join [','] (p :: q :: ps) = p ++ ',' :: Text.join [','] (q :: ps) := by
  simp [Text.join]

/-- What the readers of arrays and objects have in common: a part is read before the
closing bracket, or before a comma and the parts behind it. -/
structure ReadsParts {α : Type} (R : α → Text → Prop) (closing : Char)
    (loop : Nat → Text → Except Fault (List α × Text)) : Prop where
  start : ∀ {a : α} {part : Text}, R a part → ∀ r, Stops isJsonSpace (part ++ r)
  last : ∀ {a : α} {part rest : Text} {fuel : Nat}, R a part → 2 * part.length ≤ fuel →
    loop (fuel + 1) (part ++ closing :: rest) = .ok ([a], rest)
  next : ∀ {a : α} {part r rest : Text} {as : List α} {fuel : Nat}, R a part → 2 * part.length ≤ fuel →
    Stops isJsonSpace r → loop fuel r = .ok (as, rest) →
      loop (fuel + 1) (part ++ ',' :: r) = .ok (a :: as, rest)

theorem ReadsParts.join {α : Type} {R : α → Text → Prop} {closing : Char}
    {loop : Nat → Text → Except Fault (List α × Text)} (hloop : ReadsParts R closing loop) {as : List α}
    {parts : List Text} (h : List.Forall₂ R as parts) (hne : as ≠ []) (rest : Text) (fuel : Nat)
    (hfuel : 2 * (Text.join [','] parts).length + 1 ≤ fuel) :
    loop fuel (Text.join [','] parts ++ closing :: rest) = .ok (as, rest) := by
  induction h generalizing fuel with
  | nil => exact absurd rfl hne
  | @cons a part as parts ha hrest ih =>
    cases fuel with
    | zero => exact absurd hfuel (Nat.not_succ_le_zero _)
    | succ fuel =>
      cases hrest with
      | nil => exact hloop.last ha (Nat.le_of_succ_le_succ hfuel)
      | @cons b next as parts hb hrest =>
        rw [join_comma] at hfuel ⊢
        rw [List.length_append, List.length_cons] at hfuel
        rw [List.append_assoc, List.cons_append]
        refine hloop.next ha (by omega) ?_ (ih (List.cons_ne_nil _ _) fuel (by omega))
        cases parts with
        | nil => exact hloop.start hb _
        | cons q qs =>
          rw [join_comma, List.append_assoc]
          exact hloop.start hb _

theorem readsParts_items (room : Nat) : ReadsParts (Reads room) ']' (readItems · room) where
  start := fun h r => h.stops r
  last := fun h hfuel => readItems_last (h.read (stops_cons.2 (by decide)) hfuel)
  next := fun h hfuel hr hrest => readItems_next (h.read (stops_cons.2 (by decide)) hfuel) hr hrest

def ReadsMember (room : Nat) (e : Text × Value) (part : Text) : Prop :=
  ∃ t, part = jsonText e.1 ++ ':' :: t ∧ Reads room e.2 t

theorem readsParts_members (room : Nat) : ReadsParts (ReadsMember room) '\x7d' (readMembers · room) where
  start := by
    rintro e part ⟨t, rfl, -⟩ r
    exact stops_cons.2 (by decide)
  last := by
    rintro e part rest fuel ⟨t, rfl, h⟩ hfuel
    rw [List.length_append, List.length_cons] at hfuel
    rw [List.append_assoc]
    exact readMembers_last (h.stops _) (h.read (stops_cons.2 (by decide)) (by omega))
  next := by
    rintro e part r rest es fuel ⟨t, rfl, h⟩ hfuel hr hrest
    rw [List.length_append, List.length_cons] at hfuel
    rw [List.append_assoc]
    exact readMembers_next (h.stops _) (h.read (stops_cons.2 (by decide)) (by omega)) hr hrest

theorem exists_toJsonAll {room : Nat} {items : List Value}
    (h : ∀ v ∈ items, ∃ t, v.toJson = .ok t ∧ Reads room v t) :
    ∃ parts, toJsonAll items = .ok parts ∧ List.Forall₂ (Reads room) items parts := by
  induction items with
  | nil => exact ⟨[], by rw [toJsonAll], .nil⟩
  | cons v items ih =>
    obtain ⟨t, ht, hread⟩ := h v List.mem_cons_self
    obtain ⟨parts, hparts, hreads⟩ := ih fun u hu => h u (List.mem_cons_of_mem v hu)
    exact ⟨t :: parts, by rw [toJsonAll, ht, hparts], .cons hread hreads⟩

theorem exists_toJsonEntries {room : Nat} {entries : List (Text × Value)}
    (h : ∀ e ∈ entries, ∃ t, e.2.toJson = .ok t ∧ Reads room e.2 t) :
    ∃ parts, toJsonEntries entries = .ok parts ∧ List.Forall₂ (ReadsMember room) entries parts := by
  induction entries with
  | nil => exact ⟨[], by rw [toJsonEntries], .nil⟩
  | cons e entries ih =>
    obtain ⟨t, ht, hread⟩ := h e List.mem_cons_self
    obtain ⟨parts, hparts, hreads⟩ := ih fun f hf => h f (List.mem_cons_of_mem e hf)
    obtain ⟨key, v⟩ := e
    exact ⟨(jsonText key ++ ':' :: t) :: parts, by rw [toJsonEntries, ht, hparts], .cons ⟨t, rfl, hread⟩ hreads⟩

theorem reads_list {room : Nat} {items : List Value} {parts : List Text}
    (h : List.Forall₂ (Reads room) items parts) :
    Reads (room + 1) (.list items) ('[' :: Text.join [','] parts ++ [']']) where
  start := ⟨'[', _, rfl, by decide, by decide⟩
  read := by
    intro rest _ fuel hfuel
    simp only [List.length_cons, List.length_append, List.length_nil] at hfuel
    obtain ⟨fuel, rfl⟩ : ∃ k, fuel = k + 1 := ⟨fuel - 1, by omega⟩
    have htext : '[' :: Text.join [','] parts ++ [']'] ++ rest = '[' :: (Text.join [','] parts ++ ']' :: rest) := by
      simp
    rw [htext, readJson]
    cases h with
    | nil => rfl
    | @cons v part items parts hv hrest =>
      have hitems := (readsParts_items room).join (.cons hv hrest) (List.cons_ne_nil _ _) rest fuel
        (by omega)
      obtain ⟨c, r, hr, hspace, hc⟩ : ∃ c r, Text.join [','] (part :: parts) ++ ']' :: rest = c :: r ∧
          isJsonSpace c = false ∧ c ≠ ']' := by
        obtain ⟨c, r, rfl, hspace, hc⟩ := hv.start
        cases parts <;> exact ⟨c, _, rfl, hspace, hc⟩
      rw [hr] at hitems ⊢
      simp [skipSpace_of_stops (stops_cons.2 hspace), hc, hitems]

theorem reads_dict {room : Nat} {entries : List (Text × Value)} {parts : List Text}
    (hkeys : (entries.map Prod.fst).Nodup) (h : List.Forall₂ (ReadsMember room) entries parts) :
    Reads (room + 1) (.dict entries) ('\x7b' :: Text.join [','] parts ++ ['\x7d']) where
  start := ⟨'\x7b', _, rfl, by decide, by decide⟩
  read := by
    intro rest _ fuel hfuel
    simp only [List.length_cons, List.length_append, List.length_nil] at hfuel
    obtain ⟨fuel, rfl⟩ : ∃ k, fuel = k + 1 := ⟨fuel - 1, by omega⟩
    have htext : '\x7b' :: Text.join [','] parts ++ ['\x7d'] ++ rest =
        '\x7b' :: (Text.join [','] parts ++ '\x7d' :: rest) := by
      simp
    have hset : setEntries [] entries = entries := setEntries_of_nodup [] entries hkeys
    rw [htext, readJson]
    cases h with
    | nil => rfl
    | @cons e part entries parts he hrest =>
      have hmembers := (readsParts_members room).join (.cons he hrest) (List.cons_ne_nil _ _) rest fuel
        (by omega)
      obtain ⟨r, hr⟩ : ∃ r, Text.join [','] (part :: parts) ++ '\x7d' :: rest = '"' :: r := by
        obtain ⟨t, rfl, -⟩ := he
        cases parts <;> exact ⟨_, rfl⟩
      rw [hr] at hmembers ⊢
      simp [skipSpace_of_stops (stops_cons.2 (show isJsonSpace '"' = false by decide)), hmembers, hset]

/-- A readable value is written, and read back from what is written. -/
theorem reads_of_readable {room : Nat} {v : Value} (h : Readable room v) :
    ∃ t, v.toJson = .ok t ∧ Reads room v t := by
  induction h with
  | null room =>
    exact ⟨"null".toList, by rw [toJson], reads_other room (by decide) (by decide) fun _ => .inl rfl⟩
  | bool room b =>
    cases b with
    | true =>
      exact ⟨"true".toList, by rw [toJson]; rfl, reads_other room (by decide) (by decide) fun _ => .inl rfl⟩
    | false =>
      exact ⟨"false".toList, by rw [toJson]; rfl, reads_other room (by decide) (by decide) fun _ => .inl rfl⟩
  | int room hn => exact ⟨_, by rw [toJson], reads_int room hn⟩
  | text room s => exact ⟨_, by rw [toJson], reads_text room s⟩
  | list h ih =>
    obtain ⟨parts, hparts, hreads⟩ := exists_toJsonAll ih
    exact ⟨_, by rw [toJson, hparts], reads_list hreads⟩
  | dict hkeys h ih =>
    obtain ⟨parts, hparts, hreads⟩ := exists_toJsonEntries ih
    exact ⟨_, by rw [toJson, hparts], reads_dict hkeys hreads⟩

/-- What a JSON text without floats spells is written as JSON that spells the same. -/
theorem ofJson_toJson {j : Text} {v : Value} (hj : ofJson j = .ok v) (hv : Plain v) :
    ∃ t, v.toJson = .ok t ∧ ofJson t = .ok v := by
  have hreadable : Readable depthLimit v := by
    unfold ofJson at hj
    split at hj
    · cases hj
    · rename_i u rest hread
      split at hj
      · cases hj
        exact (readable_of_readJson _).1 hread hv
      · cases hj
  obtain ⟨t, ht, hreads⟩ := reads_of_readable hreadable
  have hstops := hreads.stops []
  have hread := hreads.read (stops_nil _) (Nat.le_add_right (2 * t.length) 2)
  rw [List.append_nil] at hstops hread
  refine ⟨t, ht, ?_⟩
  unfold ofJson
  rw [skipSpace_of_stops hstops, hread]
  rfl

end TableDialects.Value
