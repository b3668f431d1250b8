import TableDialects.Proofs.Types.Table
import TableDialects.Proofs.Value.Spelling

/- The two ways to write a converted value. One goes by the type of its column
   (`Value.literalOf`), the other by what kind of value it is
   (`Value.dialectLiteral`, which a tuple uses). They agree on numbers, truth values
   and texts of every type, and on JSON arrays and objects; they part on bytes, which
   the first writes as the text of bytes, and on single JSON values, which only the
   first writes as JSON (`literals_agree_iff`). -/
namespace TableDialects

/-! ## Types that hold bytes -/

/-- No type name that starts like one for bytes is known to hold anything but text. -/
theorem binaryTypes_string : ∀ b ∈ binaryTypes, Text.strip (Text.lower b.toList) = b.toList ∧
    ∀ e ∈ nativeTypes, (Text.after? b.toList e.1.toList).isSome = true → e.2 = .string := by
  decide +kernel

theorem nativeTypeOf_binary {type : Value} (h : categoryOf type = .binary) : nativeTypeOf type = .string := by
  unfold categoryOf at h
  dsimp only at h
  split at h
  · rename_i hbinary
    obtain ⟨b, hb, hbase⟩ := List.any_eq_true.1 hbinary
    obtain ⟨hname, hstring⟩ := binaryTypes_string b hb
    unfold nativeTypeOf
    dsimp only
    rw [← eq_of_beq hbase]
    cases hfound : lookupType nativeTypes b.toList (TypeParts.split (normalType type.textOrEmpty)).params with
    | none => rfl
    | some k =>
      obtain ⟨e, he, rfl, heq⟩ := lookupType_eq_some hfound
      rw [hname] at heq
      refine hstring e he ?_
      rcases heq with heq | heq
      · rw [heq, Text.after?_append]
        rfl
      · have hself := Text.after?_append b.toList []
        rw [List.append_nil] at hself
        rw [heq, hself]
        rfl
  · cases h

theorem nativeTypeOf_native {type : Value} {k : NativeType} (h : categoryOf type = .native k) :
    nativeTypeOf type = k := by
  unfold categoryOf at h
  dsimp only at h
  split at h
  · cases h
  · cases h
    rfl

namespace Value

def formOf : Category → LiteralForm
  | .binary => .string
  | .native .int => .int
  | .native .float => .float
  | .native .bool => .bool
  | .native .array => .array
  | .native .string => .string

theorem literalOf_eq (x type : Value) : x.literalOf type = literal (formOf (categoryOf type)) x := by
  unfold literalOf
  refine congrArg (fun form => literal form x) ?_
  cases h : categoryOf type with
  | binary =>
    rw [nativeTypeOf_binary h]
    decide +kernel
  | native k =>
    rw [nativeTypeOf_native h]
    cases k <;> decide +kernel

/-! ## Literals that differ -/

theorem stringLiteral_text (s : Text) : stringLiteral (.text s) = '\'' :: (Text.double '\'' s ++ ['\'']) := rfl

theorem ne_stringLiteral (s : Text) : s ≠ stringLiteral (.text s) := by
  intro h
  have hlength := congrArg List.length h
  have hle : s.length ≤ (Text.double '\'' s).length := by
    refine Text.length_le_flatMap (fun c => ?_) s
    split <;> exact List.cons_ne_nil _ _
  rw [stringLiteral_text, List.length_cons, List.length_append, List.length_singleton] at hlength
  omega

theorem stringLiteral_injective {s t : Text} (h : stringLiteral (.text s) = stringLiteral (.text t)) : s = t := by
  have hvalue := congrArg stringValue h
  rwa [stringLiteral_text, stringLiteral_text, stringValue_double, stringValue_double] at hvalue

theorem jsonEscape_ne_nil (c : Char) : (jsonEscape? c).getD [c] ≠ [] := by
  unfold jsonEscape?
  repeat' split
  all_goals exact List.cons_ne_nil _ _

theorem length_jsonText (s : Text) : s.length + 2 ≤ (jsonText s).length := by
  have hbody := Text.length_le_flatMap jsonEscape_ne_nil s
  unfold jsonText
  rw [List.cons_append, List.length_cons, List.length_append, List.length_singleton]
  omega

/-! ## Converted values -/

/-- Whether the value is an array or an object of JSON. -/
def isContainer : Value → Bool
  | .list _ => true
  | .dict _ => true
  | _ => false

/-- What a value of a column looks like once it is converted, outside SQLite. -/
def Holds (x : Value) : Category → Prop
  | .binary => ∃ data, x = .bytes data
  | .native .int => ∃ n, x = .int n
  | .native .float => ∃ y, x = .float y
  | .native .bool => ∃ b, x = .bool b
  | .native .array => True
  | .native .string => ∃ s, x = .text s

theorem map_eq_ok {α : Type} {e : Except Fault α} {f : α → Value} {x : Value}
    (h : (e.mapError Error.fault).map f = .ok x) : ∃ a, x = f a := by
  cases e with
  | error e => cases h
  | ok a =>
    cases h
    exact ⟨a, rfl⟩

theorem ofValue_mysql : Dialect.ofValue (.text "mysql".toList) = .ok .mysql := rfl

theorem holds_of_toNative {v type x : Value} (h : v.toNative type (.text "mysql".toList) = .ok x)
    (hx : x ≠ .null) : x.Holds (categoryOf type) := by
  unfold toNative at h
  dsimp only at h
  split at h
  · cases h
    exact absurd rfl hx
  cases hcategory : categoryOf type with
  | binary =>
    rw [hcategory] at h
    exact map_eq_ok h
  | native k =>
    rw [hcategory] at h
    cases k with
    | int => exact map_eq_ok h
    | float => exact map_eq_ok h
    | array => trivial
    | bool =>
      dsimp only at h
      split at h
      · cases h
        exact absurd rfl hx
      · rw [ofValue_mysql] at h
        cases h
        exact ⟨_, rfl⟩
    | string =>
      dsimp only at h
      split at h
      · cases h
        exact ⟨_, rfl⟩
      · cases h
        exact ⟨_, rfl⟩

/-! ## Agreement -/

theorem jsonLiteral_of_toJson {x : Value} {s : Text} (h : x.toJson = .ok s) :
    x.jsonLiteral = .ok (stringLiteral (.text s)) := by
  unfold jsonLiteral
  rw [h]

theorem exists_dialectLiteral_ne_json {x : Value} (hnull : x ≠ .null) (hx : x.isContainer = false) :
    ∃ s, x.dialectLiteral .mysql = .ok s ∧ literal .array x ≠ .ok s := by
  cases x with
  | null => exact absurd rfl hnull
  | list items => cases hx
  | dict entries => cases hx
  | bool b =>
    refine ⟨_, rfl, fun h => ?_⟩
    cases b <;> exact absurd (Except.ok.inj h) (by decide)
  | int n =>
    refine ⟨Text.ofInt n, rfl, fun h => ?_⟩
    exact ne_stringLiteral _ (Except.ok.inj h).symm
  | float y =>
    refine ⟨y.render, rfl, fun h => ?_⟩
    cases y with
    | nan => exact absurd (Except.ok.inj h) (by decide)
    | infinite negative => cases negative <;> exact absurd (Except.ok.inj h) (by decide)
    | finite negative m e => exact ne_stringLiteral _ (Except.ok.inj h).symm
  | text s =>
    refine ⟨stringLiteral (.text s), rfl, fun h => ?_⟩
    have hself : jsonText s = s := stringLiteral_injective (Except.ok.inj h)
    have hlength := length_jsonText s
    rw [hself] at hlength
    omega
  | bytes data => exact ⟨_, rfl, fun h => by cases h⟩
  | buffer data => exact ⟨_, rfl, fun h => by cases h⟩
  | stream data closable fails => exact ⟨_, rfl, fun h => by cases h⟩

/-- Converted values that are neither bytes nor JSON are written the same both ways. -/
theorem dialectLiteral_eq_literal {x : Value} {c : Category} (h : x.Holds c) (hbinary : c ≠ .binary)
    (harray : c = .native .array → x.isContainer = true) : x.dialectLiteral .mysql = literal (formOf c) x := by
  cases c with
  | binary => exact absurd rfl hbinary
  | native k =>
    cases k with
    | int =>
      obtain ⟨n, rfl⟩ := h
      rfl
    | float =>
      obtain ⟨y, rfl⟩ := h
      rfl
    | bool =>
      obtain ⟨b, rfl⟩ := h
      rfl
    | string =>
      obtain ⟨s, rfl⟩ := h
      rfl
    | array =>
      have hx := harray rfl
      cases x with
      | list items => rfl
      | dict entries => rfl
      | _ => cases hx

theorem dialectLiteral_ne_string (data : Text.Bytes) :
    ∃ s, (Value.bytes data).dialectLiteral .mysql = .ok s ∧ literal .string (.bytes data) ≠ .ok s := by
  refine ⟨_, rfl, fun h => ?_⟩
  have hhead := congrArg List.head? (Except.ok.inj h)
  exact absurd (Option.some.inj hhead) (by decide)

theorem insertTuple_single (column : Text) {v type dialect x : Value} {d : Dialect}
    (hd : Dialect.ofValue dialect = .ok d) (h : v.toNative type (.text d.name) = .ok x) (s : Text) :
    insertTuple [(column, v)] [(column, type)] dialect = .ok (some ('(' :: s ++ [')'])) ↔
      x.dialectLiteral d = .ok s := by
  have htype : columnType [(column, type)] column = type := by
    unfold columnType member?
    rw [List.find?_cons_of_pos (by exact beq_self_eq_true column)]
    rfl
  unfold insertTuple
  rw [hd]
  dsimp only
  rw [rowLiterals, htype, h]
  dsimp only
  cases x.dialectLiteral d with
  | error e => exact iff_of_false (fun h => by cases h) fun h => by cases h
  | ok part =>
    constructor
    · intro h
      have hparts : '(' :: part ++ [')'] = '(' :: s ++ [')'] := Option.some.inj (Except.ok.inj h)
      rw [List.append_cancel_right (List.cons.inj hparts).2]
    · intro h
      cases h
      rfl

/-- A converted value has the same literal by the type of its column and in a tuple of
its own, unless it is bytes, or a JSON value other than an array or an object. -/
theorem literals_agree_iff (column : Text) {v type x : Value}
    (h : v.toNative type (.text "mysql".toList) = .ok x) :
    (∀ s, x.literalOf type = .ok s ↔
      insertTuple [(column, v)] [(column, type)] (.text "mysql".toList) = .ok (some ('(' :: s ++ [')']))) ↔
      x = .null ∨ categoryOf type ≠ .binary ∧ (categoryOf type = .native .array → x.isContainer = true) := by
  have htuple := insertTuple_single column ofValue_mysql h
  have hform := literalOf_eq x type
  -- A value with a literal of its own that the type does not write is a difference.
  have hdiffer : (∃ s, x.dialectLiteral .mysql = .ok s ∧ literal (formOf (categoryOf type)) x ≠ .ok s) →
      ¬∀ s, x.literalOf type = .ok s ↔
        insertTuple [(column, v)] [(column, type)] (.text "mysql".toList) = .ok (some ('(' :: s ++ [')'])) := by
    rintro ⟨s, hs, hne⟩ hall
    rw [← hform] at hne
    exact hne ((hall s).2 ((htuple s).2 hs))
  constructor
  · intro hall
    by_cases hnull : x = .null
    · exact .inl hnull
    have hholds := holds_of_toNative h hnull
    refine .inr ⟨fun hbinary => ?_, fun harray => ?_⟩
    · rw [hbinary] at hholds hdiffer
      obtain ⟨data, rfl⟩ := hholds
      exact hdiffer (dialectLiteral_ne_string data) hall
    · rw [harray] at hdiffer
      by_contra hcontainer
      exact hdiffer (exists_dialectLiteral_ne_json hnull (Bool.eq_false_iff.2 hcontainer)) hall
  · intro hcond s
    have hsame : x.dialectLiteral .mysql = literal (formOf (categoryOf type)) x := by
      by_cases hnull : x = .null
      · subst hnull
        rfl
      · obtain ⟨hbinary, harray⟩ := hcond.resolve_left hnull
        exact dialectLiteral_eq_literal (holds_of_toNative h hnull) hbinary harray
    rw [htuple s, hform, hsame]

/-- A JSON text that is one string: in a tuple its quotes are gone. -/
theorem literals_agree_iff_word :
    let v : Value := .text "\"a\"".toList
    let type : Value := .text "json".toList
    v.toNative type (.text "mysql".toList) = .ok (.text ['a']) ∧
      ((∀ s, (Value.text ['a']).literalOf type = .ok s ↔
        insertTuple [("c".toList, v)] [("c".toList, type)] (.text "mysql".toList) =
          .ok (some ('(' :: s ++ [')']))) ↔
        Value.text ['a'] = .null ∨ categoryOf type ≠ .binary ∧
          (categoryOf type = .native .array → (Value.text ['a']).isContainer = true)) := by
  intro v type
  have hcategory : categoryOf type = .native .array := by decide +kernel
  have hnative : v.toNative type (.text "mysql".toList) = .ok (.text ['a']) := by
    unfold toNative
    dsimp only
    rw [hcategory]
    rfl
  exact ⟨hnative, literals_agree_iff "c".toList hnative⟩

end Value
end TableDialects
