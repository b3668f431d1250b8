import TableDialects.Proofs.Value.Agreement
import TableDialects.Proofs.Value.Json
import TableDialects.Proofs.Value.Tuple

/- JSON documents in a row. The literal that a tuple holds for a JSON column is a
   string from which the same document is read, if the document is an array or an
   object, and never otherwise: single values are written by their kind, and a text
   without its quotes (`document_written_iff`). -/
namespace TableDialects

/-! ## The tokens of a literal -/

theorem Spelling.words {literal : Text} {ts : List Token} (h : Spelling literal ts) :
    (tokenize literal).map Token.word = ts.map Token.word := by
  have hrender : renderTokens ts = literal := by
    rw [← h.renderBehind]
    cases ts with
    | nil => rfl
    | cons t ts =>
      have hspaced : t.spaced = false := by
        rw [(h.glued t List.mem_cons_self).2]
        rfl
      rw [TableDialects.renderBehind, hspaced]
      rfl
  rw [← map_word_bare, ← hrender, bare_tokenize_renderTokens (h.reads [] breaks_nil), map_word_shapes]

namespace Value

/-- A literal that is no string, by the kind of its first token. -/
theorem not_isString {literal s : Text} {t : Token} {ts : List Token} (h : Spelling literal (t :: ts))
    (hkind : t.kind ≠ .string) : ¬IsString ((tokenize literal).map Token.word) s := by
  rintro ⟨w, hwords, -⟩
  rw [h.words] at hwords
  exact hkind (congrArg Prod.fst (List.cons.inj hwords).1)

theorem isString_stringLiteral (s : Text) : IsString ((tokenize (stringLiteral (.text s))).map Token.word) s := by
  obtain ⟨ts, hts, hstring⟩ := exists_spelling_text s
  rwa [hts.words]

theorem isString_unique {words : List (TokenKind × Text)} {s t : Text} (hs : IsString words s)
    (ht : IsString words t) : s = t := by
  obtain ⟨v, rfl, rfl⟩ := hs
  obtain ⟨w, hw, rfl⟩ := ht
  cases hw
  rfl

theorem not_isString_ofInt (n : Int) (s : Text) : ¬IsString ((tokenize (Text.ofInt n)).map Token.word) s := by
  have hunsigned : ∀ k, ∃ c w, Text.ofNat k = c :: w ∧ c ≠ '-' := fun k =>
    (isUnsigned_digits (digits_ofNat k).1 (digits_ofNat k).2).2
  have hnumber : ∀ k, Spelling (Text.ofNat k) [.glued .number (Text.ofNat k)] := fun k =>
    spelling_number (.plain (.whole (digits_ofNat k).1 (digits_ofNat k).2) ⟨stops_nil _, fun _ => stops_nil _⟩ rfl)
  cases n with
  | ofNat k => exact not_isString (hnumber k) TokenKind.noConfusion
  | negSucc k =>
    obtain ⟨c, w, hdigits, hc⟩ := hunsigned (k + 1)
    have hminus : Spelling (['-'] ++ Text.ofNat (k + 1)) [.glued .op ['-'], .glued .number (Text.ofNat (k + 1))] := by
      refine (hnumber (k + 1)).cons (by decide) fun r _ => readsToken_sign (.inl rfl) ?_
      rw [hdigits]
      exact stops_cons.2 (by simpa using hc)
    exact not_isString hminus TokenKind.noConfusion

/-! ## Texts are shorter than their JSON -/

theorem length_stringUnits? {s rest : Text} {units : List Nat} (h : stringUnits? s = some (units, rest)) :
    units.length + rest.length < s.length := by
  have hcons : ∀ {n : Nat} {us : List Nat} {r t : Text} (lead : Text), lead ≠ [] →
      (stringUnits? t = some (us, r) → us.length + r.length < t.length) →
      stringUnits? t = some (us, r) → (n :: us).length + r.length < (lead ++ t).length := by
    intro n us r t lead hlead ih ht
    have hpos := List.length_pos_iff.2 hlead
    have hlt := ih ht
    rw [List.length_cons, List.length_append]
    omega
  fun_induction stringUnits? s generalizing units rest with
  | case1 => cases h
  | case2 r =>
    cases h
    rw [List.length_nil, Nat.zero_add]
    exact Nat.lt_succ_self _
  | case3 a b c d r n us behind hus hn ih =>
    cases h
    exact hcons ['\\', 'u', a, b, c, d] (List.cons_ne_nil _ _) ih hus
  | case4 => cases h
  | case5 c r hc n us behind hus hn ih =>
    cases h
    exact hcons ['\\', c] (List.cons_ne_nil _ _) ih hus
  | case6 => cases h
  | case7 => cases h
  | case8 c r _ _ _ _ us behind hus ih =>
    cases h
    exact hcons [c] (List.cons_ne_nil _ _) ih hus
  | case9 => cases h

theorem length_joinUnits (units : List Nat) : (joinUnits units).length ≤ units.length := by
  fun_induction joinUnits units with
  | case1 => exact Nat.le_refl _
  | case2 n => exact Nat.le_refl _
  | case3 n m units hpair ih =>
    simp only [List.length_cons]
    omega
  | case4 n m units hpair ih =>
    simp only [List.length_cons] at ih ⊢
    omega

theorem not_text_of_jsonWord? {s t rest : Text} : jsonWord? jsonWords s ≠ some (.text t, rest) := by
  intro h
  obtain ⟨word, hmem⟩ := mem_of_jsonWord? h
  unfold jsonWords at hmem
  simp at hmem

theorem not_text_of_jsonNumber {s t rest : Text} : jsonNumber s ≠ .ok (.text t, rest) := by
  intro h
  unfold jsonNumber at h
  dsimp only at h
  split at h
  · cases h
  · split at h <;> split at h <;> cases h

theorem length_of_ofJson {s t : Text} (h : ofJson s = .ok (.text t)) : t.length < s.length := by
  unfold ofJson at h
  split at h
  · cases h
  · rename_i v rest hread
    split at h
    · cases h
      have hspace : (skipSpace s).length ≤ s.length := (List.dropWhile_suffix _).length_le
      rcases readJson_cases hread with ⟨r, u, hs, hstring, heq⟩ | ⟨inner, items, -, heq, -⟩ |
        ⟨inner, entries, -, heq, -⟩ | hword | hnumber
      · cases heq
        unfold jsonString? at hstring
        split at hstring
        · rename_i units behind hunits
          cases hstring
          have hlength := length_stringUnits? hunits
          have hjoin := length_joinUnits units
          rw [hs, List.length_cons] at hspace
          omega
        · cases hstring
      · cases heq
      · cases heq
      · exact absurd hword not_text_of_jsonWord?
      · exact absurd hnumber not_text_of_jsonNumber
    · cases h

/-! ## Documents in a tuple -/

theorem not_isString_word {w : Text} (h : isKeyword w = true) (s : Text) :
    ¬IsString ((tokenize w).map Token.word) s :=
  not_isString (spelling_word h) TokenKind.noConfusion

theorem not_isString_digit {w : Text} (hne : w ≠ []) (h : ∀ c ∈ w, Text.isDigit c = true) (s : Text) :
    ¬IsString ((tokenize w).map Token.word) s :=
  not_isString (spelling_number (.plain (.whole hne h) ⟨stops_nil _, fun _ => stops_nil _⟩ rfl))
    TokenKind.noConfusion

theorem not_isString_bool {d : Dialect} {b : Bool} {literal : Text}
    (h : (Value.bool b).dialectLiteral d = .ok literal) (s : Text) :
    ¬IsString ((tokenize literal).map Token.word) s := by
  cases d with
  | postgresql =>
    cases h
    cases b <;> exact not_isString_word (by decide) s
  | _ =>
    cases h
    cases b <;> exact not_isString_digit (by decide) (by decide) s

theorem dialectLiteral_container {v : Value} (h : v.isContainer = true) (d : Dialect) :
    v.dialectLiteral d = v.jsonLiteral := by
  cases v with
  | list items => rfl
  | dict entries => rfl
  | _ => cases h

/-- The literal of a document tells it exactly if it is an array or an object. -/
theorem literal_of_document {j : Text} {v : Value} (hj : ofJson j = .ok v) (hv : Plain v) (d : Dialect) :
    ∃ literal, v.dialectLiteral d = .ok literal ∧
      ((∃ s, IsString ((tokenize literal).map Token.word) s ∧ ofJson s = .ok v) ↔ v.isContainer = true) := by
  by_cases hcontainer : v.isContainer = true
  · obtain ⟨t, ht, hback⟩ := ofJson_toJson hj hv
    refine ⟨stringLiteral (.text t), ?_, iff_of_true ⟨t, isString_stringLiteral t, hback⟩ hcontainer⟩
    rw [dialectLiteral_container hcontainer, jsonLiteral_of_toJson ht]
  · suffices ∃ literal, v.dialectLiteral d = .ok literal ∧
        ∀ s, IsString ((tokenize literal).map Token.word) s → ofJson s ≠ .ok v by
      obtain ⟨literal, hliteral, hnever⟩ := this
      exact ⟨literal, hliteral, iff_of_false (fun ⟨s, hs, hread⟩ => hnever s hs hread) hcontainer⟩
    cases hv with
    | null => exact ⟨_, rfl, fun s hs => absurd hs (not_isString_word (by decide) s)⟩
    | bool b =>
      obtain ⟨literal, hliteral⟩ : ∃ literal, (Value.bool b).dialectLiteral d = .ok literal := by
        cases d <;> exact ⟨_, rfl⟩
      exact ⟨literal, hliteral, fun s hs => absurd hs (not_isString_bool hliteral s)⟩
    | int n => exact ⟨_, rfl, fun s hs => absurd hs (not_isString_ofInt n s)⟩
    | text t =>
      refine ⟨_, rfl, fun s hs hread => ?_⟩
      cases isString_unique hs (isString_stringLiteral t)
      exact Nat.lt_irrefl _ (length_of_ofJson hread)
    | list h => exact absurd rfl hcontainer
    | dict h => exact absurd rfl hcontainer

theorem toNative_document {j : Text} {v type : Value} (hj : ofJson j = .ok v)
    (htype : categoryOf type = .native .array) (dialect : Value) :
    (Value.text j).toNative type dialect = .ok v := by
  unfold toNative
  dsimp only
  rw [htype]
  dsimp only
  rw [hj]
  rfl

end Value

theorem rowLiterals_append {types before behind : Row} {d : Dialect} {ps qs : List Text}
    (hbefore : rowLiterals types d before = .ok ps) (hbehind : rowLiterals types d behind = .ok qs) :
    rowLiterals types d (before ++ behind) = .ok (ps ++ qs) := by
  fun_induction rowLiterals types d before generalizing ps with
  | case1 =>
    cases hbefore
    exact hbehind
  | case2 => cases hbefore
  | case3 => cases hbefore
  | case4 => cases hbefore
  | case5 column v row native hnative part hpart parts hrest ih =>
    cases hbefore
    rw [List.cons_append, rowLiterals, hnative]
    dsimp only
    rw [hpart]
    dsimp only
    rw [ih hrest]
    rfl

theorem rowLiterals_single {types : Row} {d : Dialect} {column literal : Text} {v native : Value}
    (hnative : v.toNative (columnType types column) (.text d.name) = .ok native)
    (hliteral : native.dialectLiteral d = .ok literal) : rowLiterals types d [(column, v)] = .ok [literal] := by
  rw [rowLiterals, hnative]
  dsimp only
  rw [hliteral, rowLiterals]

/-- The tuple of a row holds one literal for a document of null, truth values, integers,
texts, arrays and objects in a JSON column, whatever stands in the columns around it.
The literal is one string from which the document is read again exactly if the document
is an array or an object. -/
theorem document_written_iff {j column : Text} {v dialect : Value} {d : Dialect} {types before behind : Row}
    {ps qs : List Text} (hj : Value.ofJson j = .ok v) (hv : Value.Plain v)
    (htype : categoryOf (columnType types column) = .native .array) (hd : Dialect.ofValue dialect = .ok d)
    (hbefore : rowLiterals types d before = .ok ps) (hbehind : rowLiterals types d behind = .ok qs) :
    ∃ literal, insertTuple (before ++ (column, .text j) :: behind) types dialect =
        .ok (some ('(' :: Text.join ", " (ps ++ literal :: qs) ++ [')'])) ∧
      ((∃ s, Value.IsString ((tokenize literal).map Token.word) s ∧ Value.ofJson s = .ok v) ↔
        v.isContainer = true) := by
  obtain ⟨literal, hliteral, hiff⟩ := Value.literal_of_document hj hv d
  refine ⟨literal, ?_, hiff⟩
  have hdocument := rowLiterals_single (Value.toNative_document hj htype _) hliteral
  have hparts := rowLiterals_append hbefore (rowLiterals_append hdocument hbehind)
  unfold insertTuple
  rw [hd]
  dsimp only
  rw [show before ++ (column, Value.text j) :: behind = before ++ ([(column, Value.text j)] ++ behind) from rfl,
    hparts]
  cases ps <;> rfl

/-- An array in the middle of three columns, with an apostrophe in it. -/
theorem document_written_iff_array :
    let j := "[\"'\"]".toList
    let v := Value.list [.text ['\'']]
    let types : Row := [("doc".toList, .text "jsonb".toList)]
    let before : Row := [("id".toList, .null)]
    let behind : Row := [("note".toList, .null)]
    (Value.ofJson j = .ok v ∧ Value.Plain v ∧ categoryOf (columnType types "doc".toList) = .native .array ∧
        Dialect.ofValue (.text "postgresql".toList) = .ok .postgresql) ∧
      ∃ literal, insertTuple (before ++ ("doc".toList, .text j) :: behind) types (.text "postgresql".toList) =
          .ok (some ('(' :: Text.join ", " (["NULL".toList] ++ literal :: ["NULL".toList]) ++ [')'])) ∧
        ((∃ s, Value.IsString ((tokenize literal).map Token.word) s ∧ Value.ofJson s = .ok v) ↔
          v.isContainer = true) := by
  intro j v types before behind
  have hj : Value.ofJson j = .ok v := by rfl
  have hv : Value.Plain v := .list (List.forall_mem_singleton.2 (.text _))
  have htype : categoryOf (columnType types "doc".toList) = .native .array := by decide +kernel
  have hd : Dialect.ofValue (.text "postgresql".toList) = .ok .postgresql := by rfl
  exact ⟨⟨hj, hv, htype, hd⟩, document_written_iff hj hv htype hd rfl rfl⟩

end TableDialects
