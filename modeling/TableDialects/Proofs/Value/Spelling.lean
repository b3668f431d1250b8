import TableDialects.Proofs.Written.Tokens
import TableDialects.Value.Literal

/- Literals of values as tokens. `Spelling literal ts` says that the literal is
   read as the tokens `ts`, whatever breaks the text behind it, and that no mark is
   among them: a quote, a comma, a parenthesis or a comment inside a value cannot
   leave its literal. Every literal of a value has a spelling
   (`Value.exists_spelling`), and that of a text is one string token. -/
namespace TableDialects
open Scan

/-- The token directly behind what stands before it, without a place. -/
def Token.glued (k : TokenKind) (v : Text) : Token := ⟨k, v, 0, false⟩

/-- The literal is read as the tokens before whatever ends a word. The tokens stand
close together, and none of them is a mark. -/
structure Spelling (literal : Text) (ts : List Token) : Prop where
  ne_nil : ts ≠ []
  glued : ∀ t ∈ ts, t.kind ≠ .punct ∧ t = .glued t.kind t.value
  text : ts.flatMap Token.value = literal
  reads : ∀ r, Breaks r → ReadsAll r ts

theorem renderBehind_glued {ts : List Token} (h : ∀ t ∈ ts, t = .glued t.kind t.value) :
    renderBehind Token.value ts = ts.flatMap Token.value := by
  induction ts with
  | nil => rfl
  | cons t ts ih =>
    rw [renderBehind, List.flatMap_cons, ih fun u hu => h u (List.mem_cons_of_mem t hu),
      h t List.mem_cons_self]
    rfl

theorem Spelling.renderBehind {literal : Text} {ts : List Token} (h : Spelling literal ts) :
    renderBehind Token.value ts = literal :=
  (renderBehind_glued fun t ht => (h.glued t ht).2).trans h.text

theorem spelling_token {k : TokenKind} {v : Text} (hk : k ≠ .punct)
    (h : ∀ r, Breaks r → ReadsToken k v r) : Spelling v [.glued k v] where
  ne_nil := List.cons_ne_nil _ _
  glued := by
    intro t ht
    cases List.mem_singleton.1 ht
    exact ⟨hk, rfl⟩
  text := List.append_nil v
  reads := fun r hr => ⟨h r hr, trivial⟩

theorem Spelling.cons {k : TokenKind} {v literal : Text} {ts : List Token} (hk : k ≠ .punct)
    (hs : Spelling literal ts) (h : ∀ r, Breaks r → ReadsToken k v (literal ++ r)) :
    Spelling (v ++ literal) (.glued k v :: ts) where
  ne_nil := List.cons_ne_nil _ _
  glued := by
    intro t ht
    rcases List.mem_cons.1 ht with rfl | ht
    · exact ⟨hk, rfl⟩
    · exact hs.glued t ht
  text := by
    rw [List.flatMap_cons, hs.text]
    rfl
  reads := by
    intro r hr
    refine ⟨?_, hs.reads r hr⟩
    rw [hs.renderBehind]
    exact h r hr

/-! ## Words, numbers and signs -/

theorem spelling_word {w : Text} (h : isKeyword w = true) : Spelling w [.glued .word w] :=
  spelling_token (by decide) fun _ hr => readsToken_keyword h hr

theorem spelling_number {v : Text} (h : ReadsNumber v []) : Spelling v [.glued .number v] :=
  spelling_token (by decide) fun _ hr => readsToken_number (ReadsNumber.before_break h hr)

theorem readsToken_sign {c : Char} (hc : c = '-' ∨ c = '+') {r : Text} (hr : Stops (· == '-') r) :
    ReadsToken .op [c] r := by
  have hfacts : Text.isBlank c = false ∧ Text.isDigit c = false ∧ startsWord c = false ∧ isMark c = false ∧
      Text.closerOf c = none ∧ c ≠ '/' := by
    rcases hc with rfl | rfl <;> decide
  obtain ⟨hblank, hdigit, hword, hmark, hcloser, hslash⟩ := hfacts
  refine readsToken_op hblank hdigit hword hmark ?_ (by simp [hcloser]) ?_
  · intro d _
    rcases hc with rfl | rfl <;> rfl
  · cases r with
    | nil => exact comment?_single c
    | cons d r =>
      have hd : d ≠ '-' := by simpa using stops_cons.1 hr
      rw [comment?_cons, if_neg fun h => hd h.2, if_neg fun h => hslash h.1]

/-- The literal has a spelling and no sign. -/
def IsUnsigned (literal : Text) : Prop :=
  (∃ ts, Spelling literal ts) ∧ ∃ c w, literal = c :: w ∧ c ≠ '-'

theorem isUnsigned_number {v : Text} (h : ReadsNumber v []) : IsUnsigned v := by
  refine ⟨⟨_, spelling_number h⟩, ?_⟩
  obtain ⟨c, w, rfl, hc⟩ := ReadsNumber.head h
  refine ⟨c, w, rfl, ?_⟩
  rintro rfl
  rcases hc with hc | hc
  · exact absurd hc (by decide)
  · exact absurd hc (by decide)

theorem isUnsigned_word {w : Text} (h : isKeyword w = true) : IsUnsigned w := by
  refine ⟨⟨_, spelling_word h⟩, ?_⟩
  cases w with
  | nil => cases h
  | cons c w => exact ⟨c, w, rfl, (facts_of_isPlainChar ((isKeyword_cons h).1 c List.mem_cons_self)).2.2.1⟩

theorem IsUnsigned.minus {literal : Text} (h : IsUnsigned literal) : ∃ ts, Spelling ('-' :: literal) ts := by
  obtain ⟨⟨ts, hts⟩, c, w, rfl, hc⟩ := h
  exact ⟨_, hts.cons (by decide) fun r _ => readsToken_sign (.inl rfl) (stops_cons.2 (by simpa using hc))⟩

/-! ## Numbers -/

theorem digits_ofNat (n : Nat) : Text.ofNat n ≠ [] ∧ ∀ c ∈ Text.ofNat n, Text.isDigit c = true := by
  refine ⟨Nat.toDigits_ne_nil, fun c hc => ?_⟩
  have hdigit := Nat.isDigit_of_mem_toDigits (by decide) (by decide) hc
  have hascii : c.toNat < 128 := by
    simp only [Char.isDigit, Bool.and_eq_true, decide_eq_true_eq] at hdigit
    have hle : c.val.toNat ≤ 57 := hdigit.2
    exact Nat.lt_of_le_of_lt hle (by decide)
  exact Text.of_ascii (p := fun c => c.isDigit = true → Text.isDigit c = true) (by decide) hascii hdigit

theorem isUnsigned_digits {ds : Text} (hne : ds ≠ []) (h : ∀ c ∈ ds, Text.isDigit c = true) :
    IsUnsigned ds :=
  isUnsigned_number (.plain (.whole hne h) ⟨stops_nil _, fun _ => stops_nil _⟩ rfl)

theorem exists_spelling_ofInt (n : Int) : ∃ ts, Spelling (Text.ofInt n) ts := by
  have hnat : ∀ n, IsUnsigned (Text.ofNat n) := fun n =>
    isUnsigned_digits (digits_ofNat n).1 (digits_ofNat n).2
  cases n with
  | ofNat n => exact (hnat n).1
  | negSucc n => exact (hnat (n + 1)).minus

theorem exponentText_eq (e : Int) : ∃ sign ds, (sign = '-' ∨ sign = '+') ∧ ds ≠ [] ∧
    (∀ c ∈ ds, Text.isDigit c = true) ∧ Double.exponentText e = sign :: ds := by
  obtain ⟨hne, hdigits⟩ := digits_ofNat e.natAbs
  have hpadded : ∀ ds : Text, ds ≠ [] → (∀ c ∈ ds, Text.isDigit c = true) →
      (if ds.length < 2 then '0' :: ds else ds) ≠ [] ∧
        ∀ c ∈ (if ds.length < 2 then '0' :: ds else ds), Text.isDigit c = true := by
    intro ds hds hall
    split
    · refine ⟨List.cons_ne_nil _ _, fun c hc => ?_⟩
      rcases List.mem_cons.1 hc with rfl | hc
      · decide
      · exact hall c hc
    · exact ⟨hds, hall⟩
  obtain ⟨hne', hall⟩ := hpadded _ hne hdigits
  refine ⟨_, _, ?_, hne', hall, rfl⟩
  split
  · exact .inl rfl
  · exact .inr rfl

theorem isUnsigned_point {ds es : Text} (hne : ds ++ es ≠ []) (hds : ∀ c ∈ ds, Text.isDigit c = true)
    (hes : ∀ c ∈ es, Text.isDigit c = true) : IsUnsigned (ds ++ '.' :: es) :=
  isUnsigned_number (.plain (.point hne hds hes) ⟨stops_nil _, fun _ => stops_nil _⟩ rfl)

theorem isUnsigned_exponent (e : Int) : IsUnsigned ('e' :: Double.exponentText e) := by
  obtain ⟨sign, ds, hsign, hne, hds, hexponent⟩ := exponentText_eq e
  have hnumber : Spelling ds [.glued .number ds] :=
    spelling_number (.plain (.whole hne hds) ⟨stops_nil _, fun _ => stops_nil _⟩ rfl)
  have hsigned : Spelling ([sign] ++ ds) [.glued .op [sign], .glued .number ds] := by
    refine hnumber.cons (by decide) fun r _ => readsToken_sign hsign ?_
    cases ds with
    | nil => exact absurd rfl hne
    | cons d ds =>
      refine stops_cons.2 (beq_eq_false_iff_ne.2 ?_)
      exact Text.ne_of_isDigit (hds d List.mem_cons_self) (by decide)
  have hcontinues : continuesWord sign = false := by rcases hsign with rfl | rfl <;> decide
  have hword : Spelling (['e'] ++ ([sign] ++ ds)) [.glued .word ['e'], .glued .op [sign], .glued .number ds] := by
    refine hsigned.cons (by decide) fun r _ => ?_
    exact readsToken_word (by decide) (by simp) (stops_cons.2 hcontinues) fun h => absurd h (by decide)
  rw [hexponent]
  exact ⟨⟨_, hword⟩, 'e', _, rfl, by decide⟩

theorem isUnsigned_scaled {v : Text} (hv : IsMantissa v) (e : Int) :
    IsUnsigned (v ++ 'e' :: Double.exponentText e) := by
  obtain ⟨sign, ds, hsign, hne, hds, hexponent⟩ := exponentText_eq e
  have hlead : IsExponentLead ['e', sign] := by
    refine ⟨'e', .inl rfl, .inr ?_⟩
    rcases hsign with rfl | rfl
    · exact .inr rfl
    · exact .inl rfl
  rw [hexponent]
  exact isUnsigned_number (.scaled hv hlead hne hds (stops_nil _))

theorem digits_append {ds es : Text} (hds : ∀ c ∈ ds, Text.isDigit c = true)
    (hes : ∀ c ∈ es, Text.isDigit c = true) : ∀ c ∈ ds ++ es, Text.isDigit c = true := by
  intro c hc
  rcases List.mem_append.1 hc with hc | hc
  · exact hds c hc
  · exact hes c hc

/-- A number that is laid out has a spelling, also one without digits. -/
theorem isUnsigned_layOut (format : Double.DecimalFormat) {digits : Text}
    (h : ∀ c ∈ digits, Text.isDigit c = true) (lead : Int) : IsUnsigned (Double.layOut format digits lead) := by
  have hzeros : ∀ n, ∀ c ∈ List.replicate n '0', Text.isDigit c = true := by
    intro n c hc
    rw [List.eq_of_mem_replicate hc]
    decide
  unfold Double.layOut
  split
  · split
    · have hsmall : IsUnsigned (['0'] ++ '.' :: (List.replicate (-lead - 1).toNat '0' ++ digits)) :=
        isUnsigned_point (List.cons_ne_nil '0' _) (hzeros 1) (digits_append (hzeros _) h)
      rw [List.append_assoc]
      exact hsmall
    · have hpadded := digits_append h (hzeros (lead.toNat + 1 - digits.length))
      dsimp only
      generalize digits ++ List.replicate (lead.toNat + 1 - digits.length) '0' = padded at hpadded ⊢
      have htaken : ∀ c ∈ padded.take (lead.toNat + 1), Text.isDigit c = true := fun c hc =>
        hpadded c (List.mem_of_mem_take hc)
      split
      · exact isUnsigned_point (by simp) htaken (hzeros 1)
      · rename_i hpart
        refine isUnsigned_point (fun hnil => hpart ?_) htaken fun c hc => hpadded c (List.mem_of_mem_drop hc)
        rw [(List.append_eq_nil_iff.1 hnil).2]
        rfl
  · match digits, h with
    | [], _ => exact isUnsigned_exponent lead
    | [d], h => exact isUnsigned_scaled (.whole (List.cons_ne_nil _ _) h) lead
    | d :: e :: digits, h =>
      have hmantissa : IsMantissa ([d] ++ '.' :: e :: digits) := by
        refine .point (List.cons_ne_nil d _) (fun c hc => h c ?_) fun c hc => h c (List.mem_cons_of_mem d hc)
        rw [List.mem_singleton.1 hc]
        exact List.mem_cons_self
      exact isUnsigned_scaled hmantissa lead

theorem exists_spelling_render (x : Double) : ∃ ts, Spelling x.render ts := by
  have hsigned : ∀ {negative : Bool} {body : Text}, IsUnsigned body →
      ∃ ts, Spelling (if negative then '-' :: body else body) ts := by
    intro negative body hbody
    cases negative with
    | true => exact hbody.minus
    | false => exact hbody.1
  cases x with
  | nan => exact ⟨_, spelling_word (by decide)⟩
  | infinite negative =>
    have hword : IsUnsigned "inf".toList := isUnsigned_word (by decide)
    cases negative with
    | true => exact hword.minus
    | false => exact hword.1
  | finite negative m e =>
    refine hsigned ?_
    split
    · have hzero : IsUnsigned (['0'] ++ '.' :: ['0']) :=
        isUnsigned_point (by decide) (by decide) (by decide)
      exact hzero
    · refine isUnsigned_layOut _ (fun c hc => ?_) _
      obtain ⟨-, hdigits⟩ := digits_ofNat (Double.shortest m e).1
      exact hdigits c ((isPrefix_trimEnd _ _).subset hc)

/-! ## Strings and bytes -/

theorem spelling_string {body : Text} (h : QuotedBody '\'' body) :
    Spelling ('\'' :: body) [.glued .string ('\'' :: body)] :=
  spelling_token (by decide) fun r hr =>
    readsToken_string (.inl rfl) h (runsOn_of_stops (hr.stops fun c hc => ne_of_isBreak (by decide) hc))

theorem stringValue_double (s : Text) : stringValue ('\'' :: (Text.double '\'' s ++ ['\''])) = s := by
  show Text.undouble '\'' (Text.double '\'' s ++ ['\'']).dropLast = s
  rw [List.dropLast_concat, undouble_double]

/-- The bytes that pairs of hexadecimal digits stand for. -/
def Text.unhex? : Text → Option Text.Bytes
  | [] => some []
  | [_] => none
  | a :: b :: rest =>
    match Value.hexValue? a, Value.hexValue? b, unhex? rest with
    | some x, some y, some data => some (UInt8.ofNat (16 * x + y) :: data)
    | _, _, _ => none

theorem hexDigit_facts : ∀ n < 16, Value.hexValue? (Text.hexDigit n) = some n ∧
    isPlainChar (Text.hexDigit n) = true ∧ Text.hexDigit n ≠ '\'' := by decide

theorem unhex?_hex (data : Text.Bytes) : Text.unhex? (Text.hex data) = some data := by
  induction data with
  | nil => rfl
  | cons b data ih =>
    have hb := b.toNat_lt
    have hhigh := (hexDigit_facts (b.toNat / 16) (by omega)).1
    have hlow := (hexDigit_facts (b.toNat % 16) (by omega)).1
    show Text.unhex? (Text.hexDigit (b.toNat / 16) :: Text.hexDigit (b.toNat % 16) :: Text.hex data) = _
    rw [Text.unhex?, hhigh, hlow, ih]
    dsimp only
    rw [Nat.div_add_mod, UInt8.ofNat_toNat]

theorem hex_chars (data : Text.Bytes) : ∀ c ∈ Text.hex data, isPlainChar c = true ∧ c ≠ '\'' := by
  intro c hc
  obtain ⟨b, -, hin⟩ := List.mem_flatMap.1 hc
  have hb := b.toNat_lt
  rw [List.mem_cons, List.mem_singleton] at hin
  rcases hin with rfl | rfl
  · exact (hexDigit_facts (b.toNat / 16) (by omega)).2
  · exact (hexDigit_facts (b.toNat % 16) (by omega)).2

/-- What stands around the digits of a bytes literal. -/
def Dialect.bytesMarks : Dialect → Text × Text
  | .postgresql => ("'\\x", "'")
  | .sqlserver => ("0x", "")
  | _ => ("X'", "'")

theorem bytesLiteral_eq (d : Dialect) (data : Text.Bytes) :
    Value.bytesLiteral d data = d.bytesMarks.1 ++ Text.hex data ++ d.bytesMarks.2 := by
  cases d with
  | sqlserver => exact (List.append_nil _).symm
  | _ => rfl

theorem exists_spelling_bytes (d : Dialect) (data : Text.Bytes) :
    ∃ ts, Spelling (Value.bytesLiteral d data) ts := by
  have hchars := hex_chars data
  have hquoted : QuotedBody '\'' (Text.hex data ++ ['\'']) :=
    quotedBody_append fun hin => (hchars _ hin).2 rfl
  have hmarked : Spelling (['X'] ++ '\'' :: (Text.hex data ++ ['\'']))
      [.glued .word ['X'], .glued .string ('\'' :: (Text.hex data ++ ['\'']))] := by
    refine (spelling_string hquoted).cons (by decide) fun r _ => ?_
    exact readsToken_word (by decide) (by simp) (stops_cons.2 (by decide)) fun h => absurd h (by decide)
  cases d with
  | mysql => exact ⟨_, hmarked⟩
  | sqlite => exact ⟨_, hmarked⟩
  | postgresql => exact ⟨_, spelling_string (.other (by decide) (.other (by decide) hquoted))⟩
  | sqlserver =>
    have hword : isKeyword ('x' :: Text.hex data) = true := by
      have hall : (Text.hex data).all isPlainChar = true := List.all_eq_true.2 fun c hc => (hchars c hc).1
      show (true && (isPlainChar 'x' && (Text.hex data).all isPlainChar) && true) = true
      rw [hall]
      rfl
    refine ⟨_, (spelling_word hword).cons (v := ['0']) (k := .number) (by decide) fun r _ => ?_⟩
    refine readsToken_number (.plain (.whole (by decide) (by decide)) ⟨?_, fun _ => ?_⟩ ?_)
    · exact stops_cons.2 (by decide)
    · exact stops_cons.2 (by decide)
    · exact exponentLength_eq_zero (stops_cons.2 (by decide))

/-! ## Values -/

namespace Value

/-- The kinds and values of tokens are those of one string token that stands for
`s`. -/
def IsString (words : List (TokenKind × Text)) (s : Text) : Prop :=
  ∃ v, words = [(.string, v)] ∧ stringValue v = s

/-- The literal is the digits of the bytes between the marks of the dialect. -/
def IsHex (d : Dialect) (literal : Text) (data : Text.Bytes) : Prop :=
  ∃ digits, literal = d.bytesMarks.1 ++ digits ++ d.bytesMarks.2 ∧ Text.unhex? digits = some data

/-- What a literal, with the kinds and values of its tokens, tells about the value:
a text is one string token that stands for it, a container one that stands for its
JSON, and bytes are told by their digits. -/
def Told (d : Dialect) (literal : Text) (words : List (TokenKind × Text)) : Value → Prop
  | .text s => IsString words s
  | .list items => ∃ s, (Value.list items).toJson = .ok s ∧ IsString words s
  | .dict entries => ∃ s, (Value.dict entries).toJson = .ok s ∧ IsString words s
  | .bytes data => IsHex d literal data
  | .buffer data => IsHex d literal data
  | _ => True

theorem exists_spelling_text (s : Text) :
    ∃ ts, Spelling (stringLiteral (.text s)) ts ∧ IsString (ts.map Token.word) s :=
  ⟨_, spelling_string (quotedBody_double '\'' s), _, rfl, stringValue_double s⟩

theorem exists_spelling_json {v : Value} {literal : Text} (h : v.jsonLiteral = .ok literal) :
    ∃ ts, Spelling literal ts ∧ ∃ s, v.toJson = .ok s ∧ IsString (ts.map Token.word) s := by
  unfold jsonLiteral at h
  split at h
  · rename_i s hs
    cases h
    obtain ⟨ts, hts, hstring⟩ := exists_spelling_text s
    exact ⟨ts, hts, s, hs, hstring⟩
  · cases h

theorem isHex_bytesLiteral (d : Dialect) (data : Text.Bytes) : IsHex d (bytesLiteral d data) data :=
  ⟨Text.hex data, bytesLiteral_eq d data, unhex?_hex data⟩

theorem exists_spelling {d : Dialect} {native : Value} {literal : Text}
    (h : native.dialectLiteral d = .ok literal) :
    ∃ ts, Spelling literal ts ∧ native.Told d literal (ts.map Token.word) := by
  have hword : ∀ {w : Text}, isKeyword w = true → ∃ ts, Spelling w ts := fun hw => ⟨_, spelling_word hw⟩
  have hdigit : ∀ b : Bool, ∃ ts, Spelling (if b then ['1'] else ['0']) ts := by
    intro b
    cases b <;> exact (isUnsigned_digits (by decide) (by decide)).1
  have htruth : ∀ b : Bool, ∃ ts, Spelling (if b then "TRUE".toList else "FALSE".toList) ts := by
    intro b
    cases b <;> exact hword (by decide)
  unfold dialectLiteral at h
  cases native with
  | null =>
    cases h
    exact (hword (by decide)).imp fun _ hts => ⟨hts, trivial⟩
  | bool b =>
    have hliteral : literal = (if b then ['1'] else ['0']) ∨
        literal = (if b then "TRUE".toList else "FALSE".toList) := by
      cases d with
      | postgresql =>
        cases h
        exact .inr (by cases b <;> rfl)
      | _ =>
        cases h
        exact .inl rfl
    rcases hliteral with rfl | rfl
    · exact (hdigit b).imp fun _ hts => ⟨hts, trivial⟩
    · exact (htruth b).imp fun _ hts => ⟨hts, trivial⟩
  | int n =>
    cases h
    exact (exists_spelling_ofInt n).imp fun _ hts => ⟨hts, trivial⟩
  | float x =>
    cases h
    exact (exists_spelling_render x).imp fun _ hts => ⟨hts, trivial⟩
  | text s =>
    cases h
    exact exists_spelling_text s
  | bytes data =>
    cases h
    exact (exists_spelling_bytes d data).imp fun _ hts => ⟨hts, isHex_bytesLiteral d data⟩
  | buffer data =>
    cases h
    exact (exists_spelling_bytes d data).imp fun _ hts => ⟨hts, isHex_bytesLiteral d data⟩
  | list items => exact exists_spelling_json h
  | dict entries => exact exists_spelling_json h
  | stream data closable fails =>
    cases h
    exact ⟨_, spelling_string (quotedBody_double '\'' _), trivial⟩

end Value

end TableDialects
