import TableDialects.Proofs.Types.Read

/- Types in any spelling. However a type is written, its form in the look-up is a
   normal name (`isNormalName_normalType`), which the look-up leaves as it is. A type
   that was put in upper case comes back to that form (`normalType_upper`), and words
   in any letter case with any white space between them come to the words in lower case
   with single spaces (`SpellsWords.collapse_lower`). -/
namespace TableDialects

/-! ## White space -/

/-- White space, or nothing. -/
def IsGap (s : Text) : Prop := ∀ c ∈ s, Text.isBlank c = true

instance (s : Text) : Decidable (IsGap s) := inferInstanceAs (Decidable (∀ c ∈ s, Text.isBlank c = true))

/-- Text without white space at its ends. -/
structure IsFull (s : Text) : Prop where
  starts : Stops Text.isBlank s
  ends : ∀ c ∈ s.getLast?, Text.isBlank c = false

/-- White space is collapsed alike before a text that starts full. -/
theorem collapseFrom_append_starts {s t : Text} (ht : Stops Text.isBlank t) (inRun : Bool) :
    Text.collapseFrom inRun (s ++ t) = Text.collapseFrom inRun s ++ Text.collapse t := by
  fun_induction Text.collapseFrom inRun s with
  | case1 inRun => exact collapseFrom_starts ht inRun
  | case2 c s hc ih => rw [List.cons_append, Text.collapseFrom, if_pos hc, if_pos rfl, ih]
  | case3 inRun c s hc hrun ih =>
    rw [List.cons_append, Text.collapseFrom, if_pos hc, if_neg hrun, ih]
    rfl
  | case4 inRun c s hc ih =>
    rw [List.cons_append, Text.collapseFrom, if_neg hc, ih]
    rfl

theorem collapse_append_starts (s : Text) {t : Text} (ht : Stops Text.isBlank t) :
    Text.collapse (s ++ t) = Text.collapse s ++ Text.collapse t := collapseFrom_append_starts ht false

theorem collapse_append {s : Text} (hne : s ≠ []) (h : ∀ c ∈ s.getLast?, Text.isBlank c = false) (t : Text) :
    Text.collapse (s ++ t) = Text.collapse s ++ Text.collapse t := collapseFrom_append hne h false

theorem isGap_collapse {s : Text} (hs : IsGap s) : ∀ c ∈ Text.collapse s, c = ' ' := by
  intro c hc
  rcases mem_collapseFrom c hc with rfl | ⟨hin, hfull⟩
  · rfl
  · rw [hs c hin] at hfull
    cases hfull

theorem collapseFrom_true_gap {s : Text} (hs : IsGap s) : Text.collapseFrom true s = [] := by
  induction s with
  | nil => rfl
  | cons c s ih =>
    obtain ⟨hc, hrest⟩ := List.forall_mem_cons.1 hs
    rw [Text.collapseFrom, if_pos hc, if_pos rfl, ih hrest]

theorem collapse_gap {s : Text} (hs : IsGap s) (hne : s ≠ []) : Text.collapse s = [' '] := by
  obtain ⟨c, s, rfl⟩ := List.exists_cons_of_ne_nil hne
  obtain ⟨hc, hrest⟩ := List.forall_mem_cons.1 hs
  rw [Text.collapse, Text.collapseFrom, if_pos hc, if_neg Bool.false_ne_true, collapseFrom_true_gap hrest]

theorem collapse_collapse (s : Text) : Text.collapse (Text.collapse s) = Text.collapse s := by
  have hfrom : ∀ inRun, Text.collapseFrom inRun (Text.collapseFrom inRun s) = Text.collapseFrom inRun s := by
    intro inRun
    fun_induction Text.collapseFrom inRun s with
    | case1 => rfl
    | case2 c s hc ih => exact ih
    | case3 inRun c s hc hrun ih =>
      rw [Text.collapseFrom, if_pos (by decide), if_neg hrun, ih]
    | case4 inRun c s hc ih => rw [Text.collapseFrom, if_neg hc, ih]
  exact hfrom false

theorem IsFull.collapse {s : Text} (hs : IsFull s) : IsFull (Text.collapse s) where
  starts := by
    cases s with
    | nil => exact stops_nil _
    | cons c s =>
      have hc := stops_cons.1 hs.starts
      rw [Text.collapse, Text.collapseFrom, if_neg (Bool.eq_false_iff.1 hc)]
      exact stops_cons.2 hc
  ends := by
    rcases List.eq_nil_or_concat s with rfl | ⟨x, c, rfl⟩
    · exact hs.ends
    · have hc := hs.ends c (by simp)
      rw [List.concat_eq_append, Text.collapse, collapseFrom_concat hc, List.getLast?_concat]
      exact fun d hd => Option.some.inj hd ▸ hc

theorem IsFull.strip_gaps {before s after : Text} (hs : IsFull s) (hbefore : IsGap before) (hafter : IsGap after)
    (hne : s ≠ []) : Text.strip (before ++ s ++ after) = s := by
  obtain ⟨x, c, rfl, hlast⟩ := eq_concat_of_ne_nil hne
  have hstart : Stops Text.isBlank (x ++ [c] ++ after) := by
    cases x with
    | nil => exact hs.starts
    | cons d x => exact hs.starts
  have hend : Stops Text.isBlank (x ++ [c]).reverse := by
    rw [List.reverse_append]
    exact stops_cons.2 (hs.ends c hlast)
  unfold Text.strip Text.trim Text.trimStart Text.trimEnd
  rw [List.append_assoc, hstart.dropWhile_append hbefore, List.reverse_append,
    hend.dropWhile_append fun d hd => hafter d (List.mem_reverse.1 hd), List.reverse_reverse]

theorem strip_gap {s : Text} (hs : IsGap s) : Text.strip s = [] := by
  unfold Text.strip Text.trim Text.trimStart Text.trimEnd
  rw [List.dropWhile_eq_nil_iff.2 hs]
  rfl

theorem exists_gaps (s : Text) : ∃ before x after, s = before ++ x ++ after ∧ IsGap before ∧ IsGap after ∧ IsFull x := by
  refine ⟨s.takeWhile Text.isBlank, Text.strip s, ((s.dropWhile Text.isBlank).reverse.takeWhile Text.isBlank).reverse,
    ?_, fun c hc => List.mem_takeWhile_imp hc, fun c hc => List.mem_takeWhile_imp (List.mem_reverse.1 hc), ?_, ?_⟩
  · have htrim : Text.strip s ++ ((s.dropWhile Text.isBlank).reverse.takeWhile Text.isBlank).reverse =
        s.dropWhile Text.isBlank := by
      unfold Text.strip Text.trim Text.trimStart Text.trimEnd
      rw [← List.reverse_append, List.takeWhile_append_dropWhile, List.reverse_reverse]
    rw [List.append_assoc, htrim, List.takeWhile_append_dropWhile]
  · intro c hc
    have hstart := stops_dropWhile Text.isBlank s
    obtain ⟨t, ht⟩ := isPrefix_trimEnd Text.isBlank (s.dropWhile Text.isBlank)
    refine hstart c ?_
    rw [← ht, List.head?_append]
    show (Text.strip s).head?.or _ = _
    rw [hc]
    rfl
  · intro c hc
    unfold Text.strip Text.trim Text.trimStart Text.trimEnd at hc
    rw [List.getLast?_reverse] at hc
    exact stops_dropWhile Text.isBlank _ c hc

/-! ## The form of the look-up -/

/-- The form of a type in the look-up is its full text in lower case, with single
spaces. -/
theorem normalType_of_gaps {t before x after : Text} (hlower : Text.lower t = before ++ x ++ after)
    (hbefore : IsGap before) (hafter : IsGap after) (hx : IsFull x) : normalType t = Text.collapse x := by
  -- Without full text the white space before and behind it is a single run.
  have hcollapse : Text.collapse (Text.lower t) = Text.collapse before ++ Text.collapse x ++ Text.collapse after ∨
      x = [] := by
    by_cases hne : x = []
    · exact .inr hne
    · left
      have hstart : Stops Text.isBlank (x ++ after) := by
        obtain ⟨c, x, rfl⟩ := List.exists_cons_of_ne_nil hne
        exact stops_cons.2 (stops_cons.1 hx.starts)
      rw [hlower, List.append_assoc, collapse_append_starts _ hstart, collapse_append hne hx.ends, List.append_assoc]
  have hgap : ∀ {s : Text}, IsGap s → IsGap (Text.collapse s) := fun hs c hc => by
    rw [isGap_collapse hs c hc]
    decide
  unfold normalType
  by_cases hne : x = []
  · subst hne
    rw [List.append_nil] at hlower
    exact strip_gap (hgap (hlower ▸ List.forall_mem_append.2 ⟨hbefore, hafter⟩))
  · rw [hcollapse.resolve_right hne]
    refine hx.collapse.strip_gaps (hgap hbefore) (hgap hafter) fun hnil => hne ?_
    cases x with
    | nil => rfl
    | cons c x =>
      rw [Text.collapse, Text.collapseFrom, if_neg (Bool.eq_false_iff.1 (stops_cons.1 hx.starts))] at hnil
      cases hnil

theorem isNormalName_normalType (t : Text) : IsNormalName (normalType t) := by
  obtain ⟨before, x, after, hlower, hbefore, hafter, hx⟩ := exists_gaps (Text.lower t)
  rw [normalType_of_gaps hlower hbefore hafter hx]
  refine ⟨fun c hc => ?_, hx.collapse.starts, hx.collapse.ends, collapse_collapse x⟩
  rcases mem_collapseFrom c hc with rfl | ⟨hin, -⟩
  · decide
  · refine Text.mem_lower (s := t) c ?_
    rw [hlower]
    simp [hin]

theorem IsNormalName.normalType_of_lower {n t : Text} (hn : IsNormalName n) (h : Text.lower t = n) :
    normalType t = n := by
  have hgaps : Text.lower t = [] ++ n ++ [] := by rw [h, List.nil_append, List.append_nil]
  rw [normalType_of_gaps hgaps (List.forall_mem_nil _) (List.forall_mem_nil _) ⟨hn.starts, hn.full⟩, hn.collapsed]

theorem IsNormalName.eq_space {n : Text} (hn : IsNormalName n) {c : Char} (hc : c ∈ n)
    (hblank : Text.isBlank c = true) : c = ' ' := by
  rw [← hn.collapsed] at hc
  rcases mem_collapseFrom c hc with rfl | ⟨-, hfull⟩
  · rfl
  · rw [hfull] at hblank
    cases hblank

/-! ## ASCII -/

def IsAscii (s : Text) : Prop := ∀ c ∈ s, c.toNat < 128

instance (s : Text) : Decidable (IsAscii s) := inferInstanceAs (Decidable (∀ c ∈ s, c.toNat < 128))

theorem ne_sigma_of_ascii {c : Char} (hc : c.toNat < 128) : c ≠ 'Σ' := by
  rintro rfl
  revert hc
  decide

theorem IsAscii.lower {s : Text} (hs : IsAscii s) : IsAscii (Text.lower s) := by
  have hchar : ∀ c : Char, c.toNat < 128 → ∀ d ∈ Text.lowerChar c, d.toNat < 128 := fun c hc =>
    Text.of_ascii (p := fun c => ∀ d ∈ Text.lowerChar c, d.toNat < 128) (by decide) hc
  rw [lower_eq_flatMap fun c hc => ne_sigma_of_ascii (hs c hc)]
  intro d hd
  obtain ⟨c, hc, hd⟩ := List.mem_flatMap.1 hd
  exact hchar c (hs c hc) d hd

theorem IsAscii.normalType {t : Text} (ht : IsAscii t) : IsAscii (normalType t) := by
  obtain ⟨before, x, after, hlower, hbefore, hafter, hx⟩ := exists_gaps (Text.lower t)
  rw [normalType_of_gaps hlower hbefore hafter hx]
  intro c hc
  rcases mem_collapseFrom c hc with rfl | ⟨hin, -⟩
  · decide
  · refine ht.lower c ?_
    rw [hlower]
    simp [hin]

theorem lower_upper {s : Text} (hs : IsAscii s) (hsettled : ∀ c ∈ s, Text.Settled c) :
    Text.lower (Text.upper s) = s := by
  have hchar : ∀ c : Char, c.toNat < 128 → Text.Settled c → (Text.upperChar c).flatMap Text.lowerChar = [c] ∧
      ∀ d ∈ Text.upperChar c, d ≠ 'Σ' := fun c hc =>
    Text.of_ascii (p := fun c => Text.Settled c → (Text.upperChar c).flatMap Text.lowerChar = [c] ∧
      ∀ d ∈ Text.upperChar c, d ≠ 'Σ') (by decide +kernel) hc
  have hsigma : ∀ d ∈ Text.upper s, d ≠ 'Σ' := by
    intro d hd
    obtain ⟨c, hc, hd⟩ := List.mem_flatMap.1 hd
    exact (hchar c (hs c hc) (hsettled c hc)).2 d hd
  rw [lower_eq_flatMap hsigma, Text.upper, List.flatMap_assoc]
  calc (s.map fun c => (Text.upperChar c).flatMap Text.lowerChar).flatten
      = (s.map fun c => [c]).flatten :=
        congrArg List.flatten <| List.map_congr_left fun c hc => (hchar c (hs c hc) (hsettled c hc)).1
    _ = s := List.flatMap_singleton' s

/-- A type in upper case has the form in the look-up from which it was made. -/
theorem IsNormalName.normalType_upper {n : Text} (hn : IsNormalName n) (hascii : IsAscii n) :
    normalType (Text.upper n) = n :=
  hn.normalType_of_lower (lower_upper hascii hn.settled)

/-! ## Words in any spelling -/

theorem IsGap.settled {s : Text} (hs : IsGap s) : ∀ c ∈ s, Text.Settled c := by
  refine fun c hc => ⟨Text.lowerChar_of_isBlank (hs c hc), ?_⟩
  rintro rfl
  exact absurd (hs _ hc) (by decide)

theorem ne_sigma_of_lower {s : Text} (h : IsAscii (Text.lower s)) : ∀ c ∈ s, c ≠ 'Σ' := by
  have hafter : ∀ s before, IsAscii (Text.lowerAfter before s) → ∀ c ∈ s, c ≠ 'Σ' := by
    intro s
    induction s with
    | nil => exact fun _ _ => List.forall_mem_nil _
    | cons c s ih =>
      intro before hbefore
      rw [Text.lowerAfter] at hbefore
      obtain ⟨hfirst, hrest⟩ := List.forall_mem_append.1 hbefore
      refine List.forall_mem_cons.2 ⟨?_, ih _ hrest⟩
      rintro rfl
      have hsigma : (Text.lowerSigma before s).toNat < 128 := hfirst _ List.mem_cons_self
      unfold Text.lowerSigma at hsigma
      split at hsigma <;> exact absurd hsigma (by decide)
  exact hafter s [] h

/-- The text is the words, in any letter case and with white space between
neighbours. -/
inductive SpellsWords : List Text → Text → Prop where
  | last {w s : Text} (hs : Text.lower s = w) : SpellsWords [w] s
  | more {w s g t : Text} {ws : List Text} (hs : Text.lower s = w) (hg : IsGap g) (hne : g ≠ [])
    (ht : SpellsWords ws t) : SpellsWords (w :: ws) (s ++ g ++ t)

/-- A word of ASCII characters in lower case. -/
def IsAsciiWord (w : Text) : Prop := w ≠ [] ∧ ∀ c ∈ w, Text.isBlank c = false ∧ c.toNat < 128

namespace SpellsWords

theorem join_cons {w t : Text} {ws : List Text} (h : SpellsWords ws t) :
    Text.join [' '] (w :: ws) = w ++ ' ' :: Text.join [' '] ws := by
  cases h <;> simp [Text.join]

/-- Words in any spelling come to the words with single spaces between them. -/
theorem collapse_lower {ws : List Text} {t : Text} (h : SpellsWords ws t) (hws : ∀ w ∈ ws, IsAsciiWord w) :
    (∀ c ∈ t, c ≠ 'Σ') ∧ IsFull (t.flatMap Text.lowerChar) ∧ t.flatMap Text.lowerChar ≠ [] ∧
      Text.collapse (t.flatMap Text.lowerChar) = Text.join [' '] ws := by
  have hword : ∀ {w s : Text}, Text.lower s = w → IsAsciiWord w →
      (∀ c ∈ s, c ≠ 'Σ') ∧ s.flatMap Text.lowerChar = w := by
    rintro w s rfl hw
    have hsigma := ne_sigma_of_lower fun c hc => (hw.2 c hc).2
    exact ⟨hsigma, (lower_eq_flatMap hsigma).symm⟩
  have hfull : ∀ {w : Text}, IsAsciiWord w → IsFull w := fun hw =>
    ⟨fun c hc => (hw.2 c (List.mem_of_mem_head? hc)).1, fun c hc => (hw.2 c (List.mem_of_getLast? hc)).1⟩
  induction h with
  | last hs =>
    have hw := hws _ List.mem_cons_self
    obtain ⟨hsigma, hlower⟩ := hword hs hw
    rw [hlower]
    exact ⟨hsigma, hfull hw, hw.1, collapse_eq_self fun c hc => (hw.2 c hc).1⟩
  | @more w s g t ws hs hg hne ht ih =>
    obtain ⟨hw, hrest⟩ := List.forall_mem_cons.1 hws
    obtain ⟨hsigma, hlower⟩ := hword hs hw
    obtain ⟨htsigma, htfull, htne, htcollapse⟩ := ih hrest
    have hglower : g.flatMap Text.lowerChar = g :=
      flatMap_lowerChar_eq_self fun c hc => (hg.settled c hc).1
    have hflat : (s ++ g ++ t).flatMap Text.lowerChar = w ++ (g ++ t.flatMap Text.lowerChar) := by
      rw [List.flatMap_append, List.flatMap_append, hlower, hglower, List.append_assoc]
    rw [hflat]
    refine ⟨List.forall_mem_append.2 ⟨List.forall_mem_append.2 ⟨hsigma, fun c hc => (hg.settled c hc).2⟩, htsigma⟩,
      ⟨?_, ?_⟩, ?_, ?_⟩
    · obtain ⟨c, w, rfl⟩ := List.exists_cons_of_ne_nil hw.1
      exact stops_cons.2 (stops_cons.1 (hfull hw).starts)
    · obtain ⟨x, c, heq, hlast⟩ := eq_concat_of_ne_nil htne
      rw [heq, ← List.append_assoc, ← List.append_assoc, List.getLast?_concat, ← hlast]
      exact htfull.ends
    · simp [hw.1]
    · rw [collapse_append hw.1 (hfull hw).ends, collapse_eq_self fun c hc => (hw.2 c hc).1,
        collapse_append_starts _ htfull.starts, collapse_gap hg hne, htcollapse, ht.join_cons]
      rfl

end SpellsWords

end TableDialects
