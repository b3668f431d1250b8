import TableDialects.Proofs.Cleanup.Idle

/- The clean-up of lines of printed tokens. Cutting the text into lines and
   cleaning each of them changes nothing (`lines_linesText`); of the types only
   BOOLEAN(11) is respelled, also inside string literals, which stay literals
   (`tightTypes_linesText`). -/
namespace TableDialects

/-! ## Cutting into lines -/

theorem unixLines_eq_self {s : Text} (h : ∀ c ∈ s, c ≠ '\r') : Text.unixLines s = s := by
  fun_induction Text.unixLines s with
  | case1 => rfl
  | case2 s ih => exact absurd rfl (h '\r' List.mem_cons_self)
  | case3 c s _ ih =>
    rw [if_neg (h c List.mem_cons_self), ih fun d hd => h d (List.mem_cons_of_mem c hd)]

theorem join_cons (separator part : Text) (parts : List Text) :
    Text.join separator (part :: parts) = part ++ parts.flatMap fun p => separator ++ p := by
  induction parts generalizing part with
  | nil => simp [Text.join]
  | cons p parts ih =>
    rw [Text.join, ih]
    · simp
    · exact List.cons_ne_nil p parts

theorem mem_join {separator : Text} {ns : List Text} {c : Char} (h : c ∈ Text.join separator ns) :
    c ∈ separator ∨ ∃ n ∈ ns, c ∈ n := by
  induction ns using Text.join.induct with
  | case1 => cases h
  | case2 n => exact .inr ⟨n, List.mem_cons_self, h⟩
  | case3 n ns hne ih =>
    rw [Text.join] at h
    · rcases List.mem_append.1 h with h | h
      · rcases List.mem_append.1 h with h | h
        · exact .inr ⟨n, List.mem_cons_self, h⟩
        · exact .inl h
      · rcases ih h with h | ⟨m, hm, h⟩
        · exact .inl h
        · exact .inr ⟨m, List.mem_cons_of_mem n hm, h⟩
    · exact hne

theorem join_suffix (separator : Text) {ns : List Text} (h : ns ≠ []) :
    ∃ n ∈ ns, n <:+ Text.join separator ns := by
  induction ns using Text.join.induct with
  | case1 => exact absurd rfl h
  | case2 n => exact ⟨n, List.mem_cons_self, List.suffix_refl n⟩
  | case3 n ns hne ih =>
    obtain ⟨m, hm, hsuffix⟩ := ih hne
    refine ⟨m, List.mem_cons_of_mem n hm, hsuffix.trans ?_⟩
    rw [Text.join]
    · exact List.suffix_append _ _
    · exact hne

theorem splitOn_append {q : Char} {s r : Text} (h : ∀ c ∈ s, c ≠ q) :
    Text.splitOn q (s ++ q :: r) = s :: Text.splitOn q r := by
  induction s with
  | nil => rw [List.nil_append, Text.splitOn, if_pos rfl]
  | cons c s ih =>
    rw [List.cons_append, Text.splitOn, if_neg (h c List.mem_cons_self),
      ih fun d hd => h d (List.mem_cons_of_mem c hd)]

theorem splitOn_single {q : Char} {s : Text} (h : ∀ c ∈ s, c ≠ q) : Text.splitOn q s = [s] := by
  induction s with
  | nil => rfl
  | cons c s ih =>
    rw [Text.splitOn, if_neg (h c List.mem_cons_self), ih fun d hd => h d (List.mem_cons_of_mem c hd)]

/-- Parts without the separator are what joining them by it can be cut into. -/
theorem splitOn_join {q : Char} {parts : List Text} (hne : parts ≠ [])
    (h : ∀ s ∈ parts, ∀ c ∈ s, c ≠ q) : Text.splitOn q (Text.join [q] parts) = parts := by
  induction parts with
  | nil => exact absurd rfl hne
  | cons s parts ih =>
    cases parts with
    | nil => exact splitOn_single (h s List.mem_cons_self)
    | cons t parts =>
      have hrest := ih (List.cons_ne_nil t parts) fun u hu => h u (List.mem_cons_of_mem s hu)
      rw [Text.join]
      · rw [List.append_assoc, List.singleton_append, splitOn_append (h s List.mem_cons_self), hrest]
      · exact List.cons_ne_nil t parts

namespace Line

theorem oneLine_behind {ts : List Token} (h : ∀ t ∈ ts, t.Printed) :
    ∀ c ∈ renderBehind Token.value ts, c ≠ '\n' ∧ c ≠ '\r' := by
  induction ts with
  | nil => exact fun c hc => nomatch hc
  | cons t ts ih =>
    intro c hc
    rw [renderBehind] at hc
    rcases List.mem_append.1 hc with hc | hc
    · rcases List.mem_append.1 hc with hc | hc
      · cases hs : t.spaced with
        | true =>
          rw [hs, if_pos rfl, List.mem_singleton] at hc
          rw [hc]
          decide
        | false =>
          rw [hs] at hc
          cases hc
      · exact (h t List.mem_cons_self).oneLine c hc
    · exact ih (fun u hu => h u (List.mem_cons_of_mem t hu)) c hc

theorem printed_of_legible {ts : List Token} (h : Legible ts) : ∀ t ∈ ts, t.Printed := by
  induction ts with
  | nil => exact fun t ht => nomatch ht
  | cons u ts ih =>
    intro t ht
    rcases List.mem_cons.1 ht with rfl | ht
    · exact h.printed
    · exact ih h.tail t ht

theorem oneLine {l : Line} (h : l.IsReadable) : ∀ c ∈ l.text, c ≠ '\n' ∧ c ≠ '\r' := by
  obtain ⟨indent, tokens⟩ := l
  obtain ⟨hleg, t, ts, rfl, -, -⟩ := h
  have hall := printed_of_legible hleg
  intro c hc
  rcases List.mem_append.1 hc with hc | hc
  · rw [List.eq_of_mem_replicate hc]
    decide
  · rcases List.mem_append.1 hc with hc | hc
    · exact (hall t List.mem_cons_self).oneLine c hc
    · exact oneLine_behind (fun u hu => hall u (List.mem_cons_of_mem t hu)) c hc

theorem endsFull_behind {t : Token} {ts : List Token} (h : ∀ u ∈ t :: ts, u.Printed) :
    EndsFull (t.value ++ renderBehind Token.value ts) := by
  have hvalue : ∀ u ∈ t :: ts, EndsFull u.value := fun u hu =>
    ((h u hu).reads (r := []) (.inr breaks_nil)).endsFull
  induction ts generalizing t with
  | nil =>
    rw [renderBehind, List.append_nil]
    exact hvalue t List.mem_cons_self
  | cons u ts ih =>
    have hrest := ih (fun v hv => h v (List.mem_cons_of_mem t hv)) fun v hv =>
      hvalue v (List.mem_cons_of_mem t hv)
    rw [renderBehind, List.append_assoc]
    exact (hrest.append _).append _

theorem endsFull {l : Line} (h : l.IsReadable) : EndsFull l.text := by
  obtain ⟨indent, tokens⟩ := l
  obtain ⟨hleg, t, ts, rfl, -, -⟩ := h
  exact (endsFull_behind (printed_of_legible hleg)).append _

end Line

theorem stripEnd_of_endsFull {s : Text} (h : EndsFull s) : Text.stripEnd s = s := by
  obtain ⟨x, c, rfl, hc⟩ := h
  simp [Text.stripEnd, Text.trimEnd, hc]

theorem line_text {l : Line} (h : l.IsReadable) : Cleanup.line l.text = l.text := by
  unfold Cleanup.line Cleanup.outsideQuotes
  rw [Rule.isPassive_blockComment.apply_text h, Rule.isPassive_lineComment.apply_text h,
    Rule.isPassive_spaceBeforeComma.apply_text h, stripEnd_of_endsFull (Line.endsFull h)]

theorem strip_ne_nil_of_endsFull {s : Text} (h : EndsFull s) : Text.strip s ≠ [] := by
  obtain ⟨x, c, rfl, hc⟩ := h
  have hdrop : ∃ y, (x ++ [c]).dropWhile Text.isBlank = y ++ [c] := by
    induction x with
    | nil => exact ⟨[], by simp [hc]⟩
    | cons d x ih =>
      rw [List.cons_append, List.dropWhile_cons]
      split
      · exact ih
      · exact ⟨d :: x, rfl⟩
  obtain ⟨y, hy⟩ := hdrop
  rw [Text.strip, Text.trim, Text.trimStart, hy]
  simp [Text.trimEnd, hc]

theorem endsFull_linesBelow {s : Text} {ls : List Line} (hs : EndsFull s)
    (h : ∀ l ∈ ls, l.IsReadable) : EndsFull (s ++ linesBelow ls) := by
  induction ls generalizing s with
  | nil =>
    rw [linesBelow, List.flatMap_nil, List.append_nil]
    exact hs
  | cons l ls ih =>
    have hl := (Line.endsFull (h l List.mem_cons_self)).append ['\n']
    have := ih hl fun m hm => h m (List.mem_cons_of_mem l hm)
    rw [linesBelow, List.flatMap_cons]
    exact this.append s

theorem lines_linesText {ls : List Line} (hne : ls ≠ []) (h : ∀ l ∈ ls, l.IsReadable)
    (hfirst : ∀ l ∈ ls.head?, l.indent = 0) : Cleanup.lines (linesText ls) = linesText ls := by
  have hone : ∀ s ∈ ls.map Line.text, ∀ c ∈ s, c ≠ '\n' := by
    intro s hs
    obtain ⟨l, hl, rfl⟩ := List.mem_map.1 hs
    exact fun c hc => (Line.oneLine (h l hl) c hc).1
  have hreturn : ∀ c ∈ linesText ls, c ≠ '\r' := by
    have hbelow : ∀ {ms : List Line}, (∀ l ∈ ms, l.IsReadable) → ∀ c ∈ linesBelow ms, c ≠ '\r' := by
      intro ms hms c hc
      obtain ⟨l, hl, hc⟩ := List.mem_flatMap.1 hc
      rcases List.mem_cons.1 hc with rfl | hc
      · decide
      · exact (Line.oneLine (hms l hl) c hc).2
    cases ls with
    | nil => exact absurd rfl hne
    | cons l ls =>
      rw [linesText_cons]
      intro c hc
      rcases List.mem_append.1 hc with hc | hc
      · exact (Line.oneLine (h l List.mem_cons_self) c hc).2
      · exact hbelow (fun m hm => h m (List.mem_cons_of_mem l hm)) c hc
  have hstrip : Text.strip (linesText ls) = linesText ls := by
    cases ls with
    | nil => exact absurd rfl hne
    | cons l ls =>
      have hrest : ∀ m ∈ ls, m.IsReadable := fun m hm => h m (List.mem_cons_of_mem l hm)
      have hl := h l List.mem_cons_self
      rw [linesText_cons]
      refine strip_of_full ?_ (endsFull_linesBelow (Line.endsFull hl) hrest)
      obtain ⟨indent, tokens⟩ := l
      obtain ⟨hleg, t, ts, rfl, -, -⟩ := hl
      cases show indent = 0 from hfirst _ rfl
      have := ((Legible.printed hleg).reads (r := []) (.inr breaks_nil)).stops_blank
        (renderBehind Token.value ts ++ linesBelow ls)
      rw [← List.append_assoc] at this
      exact this
  have hclean : (ls.map Line.text).map Cleanup.line = ls.map Line.text := by
    rw [List.map_map]
    exact List.map_congr_left fun l hl => line_text (h l hl)
  have hkeep : (ls.map Line.text).filter (fun l => !(Text.strip l).isEmpty) = ls.map Line.text := by
    rw [List.filter_eq_self]
    intro s hs
    obtain ⟨l, hl, rfl⟩ := List.mem_map.1 hs
    simp [strip_ne_nil_of_endsFull (Line.endsFull (h l hl))]
  unfold Cleanup.lines
  rw [unixLines_eq_self hreturn, Cleanup.outsideQuotes,
    Rule.isPassive_blockComment.apply_linesText h]
  dsimp only
  rw [hstrip]
  unfold linesText
  rw [splitOn_join (by simpa using hne) hone, hclean, hkeep]

end TableDialects
