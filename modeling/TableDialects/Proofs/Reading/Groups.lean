import TableDialects.Proofs.Reading.Kept

/- Groups in parentheses behind the type of a column that belong to no option. Options
   are looked for at every token, also inside of such a group: the groups are kept
   whole exactly if no word in them starts an option and no option in front takes a
   parenthesis of them (`Clause.groups_kept_iff`). -/
namespace TableDialects

namespace ColumnOption

/-! ## Groups without options -/

/-- No word among the tokens starts an option. The tokens of a computed value are
passed over together. -/
inductive Optionless : List Token → Prop
  | nil : Optionless []
  | token {t : Token} {ts : List Token} (ht : t.isWord "GENERATED" = false)
    (hknown : recognized (t :: ts) = false) (h : Optionless ts) : Optionless (t :: ts)
  | computed {t : Token} {ts kept left : List Token} (ht : t.isWord "GENERATED" = true)
    (hread : generated (t :: ts) ts = .ok (.other kept, left)) (h : Optionless left) : Optionless (t :: ts)

/-- From each of the tokens on, more parentheses are closed than opened. -/
def Closing (ts : List Token) : Prop := ∀ us, us <:+ ts → us ≠ [] → depthAfter 0 us < 0

end ColumnOption

theorem Balanced.depthAfter_close {inner : List Token} {c : Token} (h : Balanced inner) (hc : c.isClose = true) :
    depthAfter 0 (inner ++ [c]) = -1 := by
  rw [depthAfter_append, h.2, depthAfter_cons, turn_of_isClose hc]
  rfl

/-- Behind the parenthesis that opens a group, the others close it. -/
theorem Balanced.closing {inner : List Token} {c : Token} (h : Balanced inner) (hc : c.isClose = true) :
    ColumnOption.Closing (inner ++ [c]) := by
  rintro us ⟨front, hfront⟩ hne
  have hinner : front ++ us.dropLast = inner := by
    rw [← List.dropLast_append_of_ne_nil hne, hfront, List.dropLast_concat]
  have hopen : 0 ≤ depthAfter 0 front := depthAfter_nonneg (Int.le_refl 0) (hinner ▸ h.1)
  have hall : depthAfter 0 (front ++ us) = -1 := hfront ▸ h.depthAfter_close hc
  rw [depthAfter_append, depthAfter_add] at hall
  omega

namespace ColumnOption

namespace Closing

variable {ts : List Token}

theorem of_suffix {us : List Token} (h : Closing ts) (hus : us <:+ ts) : Closing us :=
  fun vs hvs hne => h vs (hvs.trans hus) hne

theorem ends (h : Closing ts) (hne : ts ≠ []) : ∃ front c, ts = front ++ [c] ∧ c.isClose = true := by
  refine ⟨ts.dropLast, ts.getLast hne, (List.dropLast_concat_getLast hne).symm, ?_⟩
  have hlast : depthAfter 0 [ts.getLast hne] < 0 :=
    h _ ⟨ts.dropLast, List.dropLast_concat_getLast hne⟩ (List.cons_ne_nil _ _)
  generalize ts.getLast hne = c at hlast
  rw [depthAfter_cons, Token.turn] at hlast
  by_cases hc : c.isClose = true
  · exact hc
  · rw [if_neg hc] at hlast
    split at hlast <;> exact absurd hlast (by decide)

/-- Keywords that come next do so before the last parenthesis. -/
theorem afterWords? (h : Closing ts) (hne : ts ≠ []) (words : List String) :
    (∀ rest, TableDialects.afterWords? words (ts ++ rest) =
      (TableDialects.afterWords? words ts).map (· ++ rest)) ∧
    ∀ left, TableDialects.afterWords? words ts = some left → left ≠ [] := by
  obtain ⟨front, c, rfl, hc⟩ := h.ends hne
  have havoids : ∀ rest, Avoids words ([c] ++ rest) := by
    intro rest t ht w hw
    cases ht
    exact isWord_of_isPunct hc _
  have hfront : ∀ rest, TableDialects.afterWords? words (front ++ ([c] ++ rest)) =
      (TableDialects.afterWords? words front).map (· ++ ([c] ++ rest)) :=
    fun rest => afterWords?_append (havoids rest)
  have halone := hfront []
  rw [List.append_nil] at halone
  constructor
  · intro rest
    rw [List.append_assoc, hfront, halone, Option.map_map]
    congr 1
    funext left
    simp
  · intro left hleft
    rw [halone, Option.map_eq_some_iff] at hleft
    obtain ⟨more, -, rfl⟩ := hleft
    simp

/-- A group that comes next is closed before the last parenthesis. -/
theorem takeGroup (h : Closing ts) (hopen : startsOpen ts = true) :
    ∃ inner left, left ≠ [] ∧ TableDialects.takeGroup ts = .ok (inner, left) := by
  cases ts with
  | nil => cases hopen
  | cons o ts =>
    have hdepth := h _ (List.suffix_refl _) (List.cons_ne_nil o ts)
    obtain ⟨inner, left, htake⟩ := takeGroup_of_depth hopen (Int.le_of_lt hdepth)
    refine ⟨inner, left, ?_, htake⟩
    rintro rfl
    obtain ⟨g, hg, hts⟩ := isGroup_of_takeGroup htake
    rw [List.append_nil] at hts
    rw [hts, hg.balanced.2] at hdepth
    exact absurd hdepth (by decide)

/-- Whether an option comes next does not depend on what stands behind. -/
theorem recognized_append (h : Closing ts) (hne : ts ≠ []) (rest : List Token) :
    recognized (ts ++ rest) = recognized ts := by
  have hcheck : (afterCheck? (ts ++ rest)).isSome = (afterCheck? ts).isSome := by
    obtain ⟨happend, hleft⟩ := h.afterWords? hne ["CHECK"]
    unfold afterCheck?
    rw [happend]
    cases hwords : TableDialects.afterWords? ["CHECK"] ts with
    | none => rfl
    | some left =>
      cases left with
      | nil => exact absurd rfl (hleft [] hwords)
      | cons t left =>
        show (if t.isOpen then some (t :: left ++ rest) else none).isSome =
          (if t.isOpen then some (t :: left) else none).isSome
        split <;> rfl
  have hwords : ∀ words : List String,
      (TableDialects.afterWords? words (ts ++ rest)).isSome = (TableDialects.afterWords? words ts).isSome := by
    intro words
    rw [(h.afterWords? hne words).1, Option.isSome_map]
  unfold recognized
  rw [hcheck]
  simp only [hwords]

theorem afterGenerated_append (h : Closing ts) (hne : ts ≠ []) :
    (∀ rest, afterGenerated (ts ++ rest) = afterGenerated ts ++ rest) ∧ afterGenerated ts ≠ [] := by
  obtain ⟨halways, halways'⟩ := h.afterWords? hne ["ALWAYS"]
  obtain ⟨hdefault, hdefault'⟩ := h.afterWords? hne ["BY", "DEFAULT"]
  unfold afterGenerated
  simp only [halways, hdefault]
  cases hw : TableDialects.afterWords? ["ALWAYS"] ts with
  | some left => exact ⟨fun rest => rfl, halways' left hw⟩
  | none =>
    cases hw' : TableDialects.afterWords? ["BY", "DEFAULT"] ts with
    | some left => exact ⟨fun rest => rfl, hdefault' left hw'⟩
    | none => exact ⟨fun rest => rfl, hne⟩

/-- Whether a group comes next does not depend on what stands behind. -/
theorem startsOpen_front (hne : ts ≠ []) (rest : List Token) : startsOpen (ts ++ rest) = startsOpen ts := by
  cases ts with
  | nil => exact absurd rfl hne
  | cons t ts => rfl

theorem skipGroup (h : Closing ts) (hne : ts ≠ []) (option : ColumnOption) :
    ∃ left, ∀ rest, ColumnOption.skipGroup option (ts ++ rest) = .ok (option, left ++ rest) := by
  unfold ColumnOption.skipGroup
  simp only [startsOpen_front hne]
  cases ho : startsOpen ts with
  | false => exact ⟨ts, fun rest => rfl⟩
  | true =>
    obtain ⟨inner, left, -, hgroup⟩ := h.takeGroup ho
    refine ⟨left, fun rest => ?_⟩
    rw [takeGroup_append hgroup]
    rfl

/-- The word behind the group does not depend on what stands behind. -/
theorem drop_word_append (hne : ts ≠ []) (words : List String) (rest : List Token) :
    (if startsWithWordOf words (ts ++ rest) then (ts ++ rest).drop 1 else ts ++ rest) =
      (if startsWithWordOf words ts then ts.drop 1 else ts) ++ rest := by
  cases ts with
  | nil => exact absurd rfl hne
  | cons t ts =>
    show (if t.isWordOf words then ts ++ rest else t :: ts ++ rest) =
      (if t.isWordOf words then ts else t :: ts) ++ rest
    split <;> rfl

theorem take_front_append {all left : List Token} (h : left.length ≤ all.length) (rest : List Token) :
    (all ++ rest).take ((all ++ rest).length - (left ++ rest).length) =
      all.take (all.length - left.length) := by
  have hcount : (all ++ rest).length - (left ++ rest).length = all.length - left.length := by
    rw [List.length_append, List.length_append]
    omega
  rw [hcount, List.take_append_of_le_length (Nat.sub_le _ _)]

theorem computed (h : Closing ts) (hne : ts ≠ []) {all : List Token} (hle : ts.length ≤ all.length) :
    ∃ o left, ∀ rest, ColumnOption.computed (all ++ rest) (ts ++ rest) = .ok (o, left ++ rest) := by
  obtain ⟨hidentity, hidentity'⟩ := h.afterWords? hne ["AS", "IDENTITY"]
  obtain ⟨has, has'⟩ := h.afterWords? hne ["AS"]
  unfold ColumnOption.computed
  simp only [hidentity, has]
  cases hw : TableDialects.afterWords? ["AS", "IDENTITY"] ts with
  | some left =>
    obtain ⟨behind, hskip⟩ :=
      (h.of_suffix (afterWords?_suffix hw)).skipGroup (hidentity' left hw) .autoIncrement
    exact ⟨.autoIncrement, behind, hskip⟩
  | none =>
    cases hw' : TableDialects.afterWords? ["AS"] ts with
    | none =>
      refine ⟨.other (all.take (all.length - ts.length)), ts, fun rest => ?_⟩
      simp only [Option.map_none, take_front_append hle]
    | some left =>
      have hleft := afterWords?_suffix hw'
      simp only [Option.map_none, Option.map_some, startsOpen_front (has' left hw')]
      cases ho : startsOpen left with
      | false =>
        refine ⟨.other (all.take (all.length - left.length)), left, fun rest => ?_⟩
        simp only [take_front_append (Nat.le_trans hleft.length_le hle)]
        rfl
      | true =>
        obtain ⟨inner, behind, hbehind, hgroup⟩ := (h.of_suffix hleft).takeGroup ho
        obtain ⟨front, hfront, -⟩ := consumes_drop_word ["STORED", "VIRTUAL"] behind
        have hdrop := drop_word_append hbehind ["STORED", "VIRTUAL"]
        generalize (if startsWithWordOf ["STORED", "VIRTUAL"] behind then behind.drop 1 else behind) = last
          at hfront hdrop
        have hlast : last <:+ ts := List.IsSuffix.trans ⟨front, hfront.symm⟩ ((takeGroup_suffix hgroup).trans hleft)
        refine ⟨.other (all.take (all.length - last.length)), last, fun rest => ?_⟩
        simp only [takeGroup_append hgroup, if_true, hdrop,
          take_front_append (Nat.le_trans hlast.length_le hle)]

/-- What follows GENERATED does not depend on what stands behind. -/
theorem generated (h : Closing ts) (hne : ts ≠ []) (t : Token) :
    ∃ o left, ∀ rest, ColumnOption.generated (t :: ts ++ rest) (ts ++ rest) = .ok (o, left ++ rest) := by
  obtain ⟨happend, hne'⟩ := h.afterGenerated_append hne
  have hsuffix := afterGenerated_suffix ts
  simp only [ColumnOption.generated, happend]
  exact (h.of_suffix hsuffix).computed hne' (Nat.le_trans hsuffix.length_le (Nat.le_succ _))

/-- From a token on, either the tokens up to a later place are kept, whatever stands
behind, and the others decide whether there is an option, or an option starts with
the token. -/
theorem read {t : Token} (h : Closing (t :: ts)) :
    (∃ front left, t :: ts = front ++ left ∧ left <:+ ts ∧ (Optionless (t :: ts) ↔ Optionless left) ∧
      ∀ rest, ColumnOption.read t (ts ++ rest) = .ok (.other front, left ++ rest)) ∨
    (¬ Optionless (t :: ts) ∧
      ∀ rest o left, ColumnOption.read t (ts ++ rest) = .ok (o, left) → o.kept = []) := by
  cases ht : t.isWord "GENERATED" with
  | false =>
    have happend := h.recognized_append (List.cons_ne_nil t ts)
    cases hknown : recognized (t :: ts) with
    | false =>
      refine .inl ⟨[t], ts, rfl, List.suffix_refl ts, ⟨?_, .token ht hknown⟩, ?_⟩
      · intro hless
        cases hless with
        | token _ _ hless => exact hless
        | computed ht' => rw [ht] at ht'; cases ht'
      · intro rest
        exact read_other ht ((happend rest).trans hknown)
    | true =>
      refine .inr ⟨?_, fun rest o left => read_recognized ht ((happend rest).trans hknown)⟩
      intro hless
      cases hless with
      | token _ hknown' => rw [hknown] at hknown'; cases hknown'
      | computed ht' => rw [ht] at ht'; cases ht'
  | true =>
    -- A word is not the last of the tokens.
    have hne : ts ≠ [] := by
      rintro rfl
      have hdepth := h [t] (List.suffix_refl _) (List.cons_ne_nil t [])
      rw [depthAfter_cons, turn_of_isWord ht] at hdepth
      exact absurd hdepth (by decide)
    obtain ⟨o, left, hgenerated⟩ := (h.of_suffix (List.suffix_cons t ts)).generated hne t
    have halone := hgenerated []
    rw [List.append_nil, List.append_nil, List.append_nil] at halone
    have hread : ∀ rest, ColumnOption.read t (ts ++ rest) = .ok (o, left ++ rest) := by
      intro rest
      rw [ColumnOption.read, ht, if_pos rfl]
      exact hgenerated rest
    have hinv : Optionless (t :: ts) → ∃ kept, o = .other kept ∧ Optionless left := by
      intro hless
      cases hless with
      | token ht' => rw [ht] at ht'; cases ht'
      | computed _ hread' hless =>
        rw [halone] at hread'
        cases hread'
        exact ⟨_, rfl, hless⟩
    rcases generated_kept ht halone with rfl | ⟨front, hfront, rfl, -⟩
    · refine .inr ⟨?_, ?_⟩
      · intro hless
        obtain ⟨kept, hkept, -⟩ := hinv hless
        cases hkept
      · intro rest o' left' hread'
        rw [hread] at hread'
        cases hread'
        rfl
    · refine .inl ⟨front, left, hfront, generated_suffix halone, ⟨?_, .computed ht halone⟩, hread⟩
      intro hless
      obtain ⟨-, -, hleft⟩ := hinv hless
      exact hleft

/-- Along all tokens of a group behind its first: without an option they are kept piece
by piece, and with one a token of them is lost. -/
theorem options (h : Closing ts) :
    (Optionless ts ∧ ∃ pieces : List (List Token), pieces.flatten = ts ∧
      ∀ rest, Reaches (ts ++ rest) (pieces.map .other) rest) ∨
    (¬ Optionless ts ∧ ∃ t ∈ ts, ∀ rest, Lost (ts ++ rest) t) := by
  -- An option takes one token or more, so that the induction is on their number.
  induction hn : ts.length using Nat.strongRecOn generalizing ts with
  | ind n ih =>
    cases ts with
    | nil => exact .inl ⟨.nil, [], rfl, Reaches.nil⟩
    | cons t ts =>
      rcases h.read with ⟨front, left, hfront, hleft, hiff, hread⟩ | ⟨hsome, hnone⟩
      · have hshort : left.length < n := by
          have hle := hleft.length_le
          rw [List.length_cons] at hn
          omega
        rcases ih _ hshort (h.of_suffix (hleft.trans (List.suffix_cons t ts))) rfl with
          ⟨hless, pieces, hpieces, hreach⟩ | ⟨hsome, u, hu, hlost⟩
        · refine .inl ⟨hiff.2 hless, front :: pieces, ?_, fun rest => .cons (hread rest) (hreach rest)⟩
          rw [List.flatten_cons, hpieces, hfront]
        · refine .inr ⟨fun hless => hsome (hiff.1 hless), u, ?_, fun rest => ?_⟩
          · exact List.mem_cons_of_mem t (hleft.subset hu)
          · exact (hlost rest).of_reaches (.cons (hread rest) (.nil _))
      · exact .inr ⟨hsome, t, List.mem_cons_self, fun rest => lost_head (hnone rest)⟩

end Closing

theorem recognized_open {o : Token} (h : o.isOpen = true) (ts : List Token) :
    o.isWord "GENERATED" = false ∧ recognized (o :: ts) = false := by
  have hword : ∀ w : Text, o.isWord w = false := isWord_of_isPunct h
  have hwords : ∀ words : List String, 0 < words.length → afterWords? words (o :: ts) = none := by
    intro words hpos
    cases words with
    | nil => cases hpos
    | cons w words =>
      rw [afterWords?, List.map_cons, startsWithWords, hword]
      rfl
  refine ⟨hword _, ?_⟩
  rw [recognized, afterCheck?, hwords _ (by decide), Bool.or_eq_false_iff, List.any_eq_false]
  refine ⟨rfl, fun e he => ?_⟩
  rw [hwords _ (ends_table e he).1]
  exact Bool.false_ne_true

end ColumnOption

namespace IsGroup

open ColumnOption

variable {inner g : List Token}

/-- A group without an option is kept piece by piece, and of one with an option a token
is lost. -/
theorem options (h : IsGroup inner g) :
    (Optionless g ∧ ∃ pieces : List (List Token), pieces.flatten = g ∧
      ∀ rest, Reaches (g ++ rest) (pieces.map .other) rest) ∨
    (¬ Optionless g ∧ ∃ t ∈ g, ∀ rest, Lost (g ++ rest) t) := by
  obtain ⟨o, c, rfl, ho, hc, hbalanced⟩ := h
  have hopen := recognized_open ho
  have hfirst : ∀ ts, Reaches (o :: ts) [.other [o]] ts :=
    fun ts => .cons (read_other (hopen ts).1 (hopen ts).2) (.nil ts)
  rcases (hbalanced.closing hc).options with ⟨hless, pieces, hpieces, hreach⟩ | ⟨hsome, t, ht, hlost⟩
  · refine .inl ⟨.token (hopen []).1 (hopen _).2 hless, [o] :: pieces, ?_, fun rest => ?_⟩
    · rw [List.flatten_cons, hpieces]
      rfl
    · exact (hfirst _).append (hreach rest)
  · refine .inr ⟨?_, t, List.mem_cons_of_mem o ht, fun rest => (hlost rest).of_reaches (hfirst _)⟩
    intro hless
    cases hless with
    | token _ _ hless => exact hsome hless
    | computed hword => rw [(hopen []).1] at hword; cases hword

theorem depth_pos {front part behind : List Token} (h : IsGroup inner g) (hfront : Balanced front)
    (hg : g = part ++ behind) (hpart : part ≠ []) (hbehind : behind ≠ []) :
    0 < depthAfter 0 (front ++ part) := by
  obtain ⟨o, c, rfl, ho, hc, hbalanced⟩ := h
  cases part with
  | nil => exact absurd rfl hpart
  | cons u part =>
    rw [List.cons_append, List.cons.injEq] at hg
    obtain ⟨rfl, hrest⟩ := hg
    have hclosing := hbalanced.closing hc behind ⟨part, hrest.symm⟩ hbehind
    have hall : depthAfter 0 (part ++ behind) = -1 := hrest ▸ hbalanced.depthAfter_close hc
    rw [depthAfter_append, depthAfter_add] at hall
    rw [depthAfter_append, hfront.2, depthAfter_cons, turn_of_isOpen ho, depthAfter_add]
    omega

end IsGroup

/-! ## Options outside of the groups -/

namespace ColumnOption

/-- A group in parentheses that belongs to no option. It is severed if the option in
front of it takes its first tokens and leaves others. -/
structure OuterGroup where
  tokens : List Token
  severed : Bool

/-- The options leave the group alone. -/
def OuterGroup.Free (g : OuterGroup) : Prop := g.severed = false ∧ Optionless g.tokens

/-- The options and the groups of the first tokens, where options start outside of
parentheses only and each group is kept whole; the other tokens are left. -/
inductive Outside : List Token → List ColumnOption → List OuterGroup → List Token → Prop
  | nil (ts : List Token) : Outside ts [] [] ts
  | group {inner g rest left : List Token} {os : List ColumnOption} {gs : List OuterGroup}
    (hg : IsGroup inner g) (h : Outside rest os gs left) :
    Outside (g ++ rest) (.other g :: os) (⟨g, false⟩ :: gs) left
  | option {t : Token} {ts rest left : List Token} {o : ColumnOption} {os : List ColumnOption}
    {gs : List OuterGroup} (ht : t.isOpen = false) (hread : read t ts = .ok (o, rest))
    (hrest : Consumes (t :: ts) rest) (h : Outside rest os gs left) :
    Outside (t :: ts) (o :: os) gs left
  | severed {t : Token} {ts front inner part behind rest left : List Token} {o : ColumnOption}
    {os : List ColumnOption} {gs : List OuterGroup} (ht : t.isOpen = false)
    (hread : read t ts = .ok (o, behind ++ rest)) (hts : t :: ts = front ++ (part ++ (behind ++ rest)))
    (hfront : Balanced front) (hg : IsGroup inner (part ++ behind)) (hpart : part ≠ [])
    (hbehind : behind ≠ []) (h : Outside rest os gs left) :
    Outside (t :: ts) (o :: .other (part ++ behind) :: os) (⟨part ++ behind, true⟩ :: gs) left

theorem kept_of_severed {t : Token} {ts front inner part behind rest : List Token} {o : ColumnOption}
    (ht : t.isOpen = false) (hread : read t ts = .ok (o, behind ++ rest))
    (hts : t :: ts = front ++ (part ++ (behind ++ rest))) (hfront : Balanced front)
    (hg : IsGroup inner (part ++ behind)) (hpart : part ≠ []) (hbehind : behind ≠ []) : o.kept = [] := by
  rcases read_kept hread with hnone | ⟨taken, htaken, -, halone⟩
  · exact hnone
  · have htaken : front ++ part = taken := by
      rw [htaken, ← List.append_assoc front] at hts
      exact (List.append_cancel_right hts).symm
    rcases halone with rfl | hbalanced
    · -- The only token taken would be the parenthesis.
      have hopen := hg.startsOpen rest
      cases part with
      | nil => exact absurd rfl hpart
      | cons u part =>
        cases front with
        | nil =>
          obtain ⟨rfl, -⟩ := List.cons.inj htaken
          exact absurd (ht.symm.trans hopen) Bool.false_ne_true
        | cons v front =>
          have hlength := congrArg List.length htaken
          simp at hlength
    · have hdepth := hg.depth_pos hfront rfl hpart hbehind
      rw [htaken, hbalanced.2] at hdepth
      exact absurd hdepth (by decide)

namespace Outside

variable {ts left : List Token} {os : List ColumnOption} {gs : List OuterGroup}

theorem infix_kept (h : Outside ts os gs left) : ∀ g ∈ gs, g.tokens <:+: os.flatMap kept := by
  induction h with
  | nil => exact fun g hg => absurd hg List.not_mem_nil
  | @group inner g rest left os gs hg h ih =>
    intro g' hg'
    rw [List.flatMap_cons]
    rcases List.mem_cons.1 hg' with rfl | hg'
    · exact (List.prefix_append g _).isInfix
    · exact (ih g' hg').trans (List.suffix_append g _).isInfix
  | @option t ts rest left o os gs ht hread hrest h ih =>
    intro g' hg'
    rw [List.flatMap_cons]
    exact (ih g' hg').trans (List.suffix_append _ _).isInfix
  | @severed t ts front inner part behind rest left o os gs ht hread hts hfront hg hpart hbehind h ih =>
    intro g' hg'
    rw [List.flatMap_cons, List.flatMap_cons]
    refine List.IsInfix.trans ?_ (List.suffix_append _ _).isInfix
    rcases List.mem_cons.1 hg' with rfl | hg'
    · exact (List.prefix_append (part ++ behind) _).isInfix
    · exact (ih g' hg').trans (List.suffix_append _ _).isInfix

/-- Reading goes along with the options outside of the groups as long as these are
free; of the first group that is not, a token is lost. -/
theorem reaches_or_lost (h : Outside ts os gs left) :
    ((∀ g ∈ gs, g.Free) ∧ ∃ os', Reaches ts os' left ∧
      ∀ c : Column, os'.foldl Column.apply c = os.foldl Column.apply c) ∨
    ∃ g ∈ gs, ¬ g.Free ∧ ∃ t ∈ g.tokens, Lost ts t := by
  induction h with
  | nil ts => exact .inl ⟨fun g hg => absurd hg List.not_mem_nil, [], .nil ts, fun c => rfl⟩
  | @group inner g rest left os gs hg h ih =>
    rcases hg.options with ⟨hless, pieces, hpieces, hreach⟩ | ⟨hsome, t, ht, hlost⟩
    · rcases ih with ⟨hfree, os', hreach', hfold⟩ | ⟨g', hg', hbound, t, ht, hlost⟩
      · refine .inl ⟨List.forall_mem_cons.2 ⟨⟨rfl, hless⟩, hfree⟩, _, (hreach rest).append hreach', ?_⟩
        intro c
        rw [List.foldl_append, Column.foldl_apply_other, hpieces, hfold]
        rfl
      · exact .inr ⟨g', List.mem_cons_of_mem _ hg', hbound, t, ht, hlost.of_reaches (hreach rest)⟩
    · exact .inr ⟨_, List.mem_cons_self, fun hfree => hsome hfree.2, t, ht, hlost rest⟩
  | @option t ts rest left o os gs ht hread hrest h ih =>
    rcases ih with ⟨hfree, os', hreach, hfold⟩ | ⟨g, hg, hbound, u, hu, hlost⟩
    · exact .inl ⟨hfree, o :: os', .cons hread hreach, fun c => hfold _⟩
    · exact .inr ⟨g, hg, hbound, u, hu, hlost.of_reaches (.cons hread (.nil _))⟩
  | @severed t ts front inner part behind rest left o os gs ht hread hts hfront hg hpart hbehind h ih =>
    have hkept := kept_of_severed ht hread hts hfront hg hpart hbehind
    refine .inr ⟨_, List.mem_cons_self, fun hfree => Bool.noConfusion hfree.1, ?_⟩
    obtain ⟨u, hu⟩ := List.exists_mem_of_ne_nil part hpart
    refine ⟨u, List.mem_append_left behind hu, [], t, ts, .nil _, ?_⟩
    intro o' left' hread'
    rw [hread] at hread'
    cases hread'
    exact ⟨hkept, front ++ part, by rw [hts, List.append_assoc], List.mem_append_right front hu⟩

end Outside

end ColumnOption

/-! ## Every balanced list is read outside of its groups -/

/-- A balanced list that starts with a parenthesis starts with a group. -/
theorem Balanced.exists_group {o : Token} {ts : List Token} (h : Balanced (o :: ts)) (ho : o.isOpen = true) :
    ∃ inner g rest, IsGroup inner g ∧ o :: ts = g ++ rest ∧ Balanced rest := by
  obtain ⟨inner, rest, htake⟩ := takeGroup_of_depth ho (Int.le_of_eq h.2)
  obtain ⟨g, hg, hts⟩ := isGroup_of_takeGroup htake
  exact ⟨inner, g, rest, hg, hts, hg.balanced.behind (hts ▸ h)⟩

/-- Tokens that leave parentheses open are balanced up to one of these, and it is not
closed behind. -/
theorem exists_unclosed {ts : List Token} (hstays : staysOpen 0 ts = true) (hdepth : 0 < depthAfter 0 ts) :
    ∃ front o part, ts = front ++ o :: part ∧ Balanced front ∧ o.isOpen = true ∧
      staysOpen 0 part = true := by
  -- From the end: the place sought is the last one that stands at depth zero.
  induction hn : ts.length generalizing ts with
  | zero =>
    rw [List.length_eq_zero_iff.1 hn] at hdepth
    exact absurd hdepth (by decide)
  | succ n ih =>
    have hne : ts ≠ [] := by
      rintro rfl
      cases hn
    obtain ⟨us, u, rfl⟩ : ∃ us u, ts = us ++ [u] := ⟨_, _, (List.dropLast_concat_getLast hne).symm⟩
    rw [staysOpen_append, Bool.and_eq_true] at hstays
    have hus := hstays.1
    have hnonneg : 0 ≤ depthAfter 0 us := depthAfter_nonneg (Int.le_refl 0) ((List.append_nil us).symm ▸ hus)
    rw [depthAfter_append, depthAfter_cons] at hdepth
    by_cases hzero : depthAfter 0 us = 0
    · refine ⟨us, u, [], rfl, ⟨hus, hzero⟩, ?_, rfl⟩
      by_cases hu : u.isOpen = true
      · exact hu
      · rw [hzero, Token.turn, if_neg hu] at hdepth
        split at hdepth <;> exact absurd hdepth (by decide)
    · obtain ⟨front, o, part, rfl, hfront, ho, hpart⟩ :=
        ih hus (by omega) (by simpa using hn)
      refine ⟨front, o, part ++ [u], by simp, hfront, ho, ?_⟩
      have hinner : depthAfter 0 (front ++ o :: part) = 1 + depthAfter 0 part := by
        rw [depthAfter_append, hfront.2, depthAfter_cons, turn_of_isOpen ho, depthAfter_add]
        rfl
      have hlast : 0 ≤ depthAfter 0 part + u.turn := by
        have hup : depthAfter (depthAfter 0 (front ++ o :: part) + u.turn) [] =
          depthAfter 0 (front ++ o :: part) + u.turn := rfl
        rw [hup, hinner] at hdepth
        omega
      rw [staysOpen_append, hpart, staysOpen, decide_eq_true hlast]
      rfl

/-- Around a place inside of parentheses stands an outermost group. -/
theorem Balanced.exists_group_around {ts us : List Token} (h : Balanced (ts ++ us))
    (hdepth : depthAfter 0 ts ≠ 0) :
    ∃ front inner part behind rest, ts = front ++ part ∧ us = behind ++ rest ∧ Balanced front ∧
      IsGroup inner (part ++ behind) ∧ part ≠ [] ∧ behind ≠ [] ∧ Balanced rest := by
  have hnonneg : 0 ≤ depthAfter 0 ts := depthAfter_nonneg (Int.le_refl 0) h.1
  have hstays := h.1
  rw [staysOpen_append, Bool.and_eq_true] at hstays
  obtain ⟨front, o, part, rfl, hfront, ho, hpart⟩ := exists_unclosed hstays.1 (by omega)
  rw [List.append_assoc] at h
  obtain ⟨inner, g, rest, hg, hts, hrest⟩ := (hfront.behind h).exists_group ho
  -- The group is not closed among the tokens in front.
  have hopen : ∀ more, o :: part ≠ g ++ more := by
    rintro more hmore
    obtain ⟨o', c, rfl, -, hc, hbalanced⟩ := hg
    rw [List.cons_append, List.append_assoc, List.cons.injEq] at hmore
    rw [hmore.2, staysOpen_append, hbalanced.2, List.singleton_append, staysOpen, turn_of_isClose hc] at hpart
    simp at hpart
  have hsplit : (o :: part) ++ us = g ++ rest := hts
  rcases List.append_eq_append_iff.1 hsplit with ⟨behind, rfl, hus⟩ | ⟨more, hmore, -⟩
  · refine ⟨front, inner, o :: part, behind, rest, rfl, hus, hfront, hg, List.cons_ne_nil o part, ?_, hrest⟩
    rintro rfl
    exact hopen [] (by simp)
  · exact absurd hmore (hopen more)

namespace ColumnOption

/-- Balanced tokens are read outside of their groups to the end, or to an option that
cannot be read. -/
theorem Outside.exists_of_balanced {ts : List Token} (h : Balanced ts) :
    ∃ os gs left, Outside ts os gs left ∧ ∀ t us, left = t :: us → ∃ e, read t us = .error e := by
  induction hn : ts.length using Nat.strongRecOn generalizing ts with
  | ind n ih =>
    cases ts with
    | nil => exact ⟨[], [], [], .nil [], fun t us h => absurd h.symm (List.cons_ne_nil t us)⟩
    | cons t ts =>
      by_cases ht : t.isOpen = true
      · obtain ⟨inner, g, rest, hg, hts, hrest⟩ := h.exists_group ht
        have hshort : rest.length < n := by
          obtain ⟨o, c, rfl, -⟩ := hg
          rw [← hn, hts]
          simp
          omega
        obtain ⟨os, gs, left, houtside, hend⟩ := ih _ hshort hrest rfl
        rw [hts]
        exact ⟨_, _, left, .group hg houtside, hend⟩
      · rw [Bool.not_eq_true] at ht
        cases hread : read t ts with
        | error e =>
          refine ⟨[], [], t :: ts, .nil _, ?_⟩
          intro u us hus
          cases hus
          exact ⟨e, hread⟩
        | ok p =>
          obtain ⟨o, mid⟩ := p
          obtain ⟨⟨taken, htaken⟩, hlength⟩ := read_isBehind hread
          have hshort : mid.length < n := hn ▸ hlength
          rw [← htaken] at h
          by_cases hzero : depthAfter 0 taken = 0
          · have hstays := h.1
            rw [staysOpen_append, Bool.and_eq_true] at hstays
            have hbalanced : Balanced taken := ⟨hstays.1, hzero⟩
            obtain ⟨os, gs, left, houtside, hend⟩ := ih _ hshort (hbalanced.behind h) rfl
            exact ⟨_, _, left, .option ht hread ⟨taken, htaken.symm, hbalanced⟩ houtside, hend⟩
          · obtain ⟨front, inner, part, behind, rest, rfl, rfl, hfront, hg, hpart, hbehind, hrest⟩ :=
              h.exists_group_around hzero
            have hrest' : rest.length < n := by
              rw [List.length_append] at hshort
              omega
            obtain ⟨os, gs, left, houtside, hend⟩ := ih _ hrest' hrest rfl
            rw [List.append_assoc] at htaken
            exact ⟨_, _, left, .severed ht hread htaken.symm hfront hg hpart hbehind houtside, hend⟩

end ColumnOption

/-! ## Clauses -/

namespace Column

theorem extra_takeModifiers (c : Column) (ts : List Token) : (takeModifiers c ts).1.extra = c.extra := by
  fun_induction takeModifiers c ts with
  | case1 => rfl
  | case2 c t ts ht ih => exact ih
  | case3 c t ts hn ht ih => exact ih
  | case4 => rfl

theorem extra_takeType {name : Text} {ts rest : List Token} {c : Column}
    (h : takeType name ts = .ok (c, rest)) : c.extra = [] := by
  unfold takeType at h
  split at h
  · cases h
    rfl
  · split at h
    · dsimp only at h
      split at h
      · cases h
      · have hextra := congrArg (fun p => p.1.extra) (Except.ok.inj h)
        rw [← hextra]
        exact extra_takeModifiers _ _
    · cases h
      rfl

end Column

namespace Clause

open ColumnOption

/-- The clause is no constraint, and opens with the name and the type of a column; the
tokens of the tail follow. -/
def Opens (s : Text) (c : Column) (tail : List Token) : Prop :=
  ∃ name ts left typed, tokenize s = name :: ts ∧ takeConstraint (name :: ts) = .ok (none, left) ∧
    name.isIdentifier = true ∧ Column.takeType name.name ts = .ok (typed, tail) ∧
    c = { typed with tail := Column.tailText s tail }

namespace Opens

variable {s : Text} {c x : Column} {tail left : List Token} {os : List ColumnOption} {gs : List OuterGroup}

theorem read (h : Opens s c tail) :
    Clause.read s = (readAll tail).map fun os => .column (os.foldl Column.apply c) := by
  obtain ⟨name, ts, left, typed, htokens, hnone, hname, htype, rfl⟩ := h
  rw [Clause.read, htokens]
  dsimp only
  rw [hnone]
  dsimp only
  rw [Column.read, if_pos hname, htype]
  dsimp only
  cases readAll tail <;> rfl

theorem extra (h : Opens s c tail) : c.extra = [] := by
  obtain ⟨name, ts, left, typed, -, -, -, htype, rfl⟩ := h
  have htyped : typed.extra = [] := Column.extra_takeType htype
  exact htyped

theorem nodup (h : Opens s c tail) : tail.Nodup := by
  obtain ⟨name, ts, left, typed, htokens, -, -, htype, -⟩ := h
  have hall : (name :: ts).Nodup := htokens ▸ (laid_tokenize s).nodup
  exact ((Column.takeType_suffix htype).1.trans (List.suffix_cons name ts)).sublist.nodup hall

/-- With all groups free, the clause is read as outside of the groups. -/
theorem read_of_free (h : Opens s c tail) (houtside : Outside tail os gs left) (hfree : ∀ g ∈ gs, g.Free) :
    Clause.read s = (readAll left).map fun more => .column ((os ++ more).foldl Column.apply c) := by
  rcases houtside.reaches_or_lost with ⟨-, os', hreach, hfold⟩ | ⟨g, hg, hbound, -⟩
  · rw [h.read, hreach.readAll]
    cases readAll left with
    | error e => rfl
    | ok more =>
      show Except.ok (Clause.column ((os' ++ more).foldl Column.apply c)) = _
      rw [List.foldl_append, hfold, ← List.foldl_append]
      rfl
  · exact absurd (hfree g hg) hbound

/-- The groups are kept whole where options are read outside of them. -/
theorem infix_extra (h : Opens s c tail) (houtside : Outside tail os gs left) (more : List ColumnOption) :
    ∀ g ∈ gs, g.tokens <:+: ((os ++ more).foldl Column.apply c).extra := by
  intro g hg
  rw [Column.extra_foldl_apply, h.extra, List.nil_append, List.flatMap_append]
  exact (houtside.infix_kept g hg).trans (List.prefix_append _ _).isInfix

/-- Groups that are all kept whole are free: of one that is not, a token is lost. -/
theorem free_of_kept (h : Opens s c tail) (houtside : Outside tail os gs left)
    (hx : Clause.read s = .ok (.column x)) (hkept : ∀ g ∈ gs, g.tokens <:+: x.extra) : ∀ g ∈ gs, g.Free := by
  rcases houtside.reaches_or_lost with ⟨hfree, -⟩ | ⟨g, hg, -, t, ht, hlost⟩
  · exact hfree
  · rw [h.read] at hx
    cases hall : readAll tail with
    | error e => rw [hall] at hx; cases hx
    | ok options =>
      rw [hall] at hx
      cases hx
      have hin := (hkept g hg).subset ht
      rw [Column.extra_foldl_apply, h.extra, List.nil_append] at hin
      exact absurd hin (hlost.not_mem_kept h.nodup hall)

end Opens

/-- The tail of a column clause, if it is balanced, can be read with options outside of
its groups only, to the end or to an option that cannot be read. The clause is read in
this way exactly if no word inside of the groups that belong to no option starts one
and none of these groups is severed by the option in front of it; and exactly then all
of them are kept whole, as they stand, among the tokens without meaning. -/
theorem groups_kept_iff {s : Text} {c : Column} {tail : List Token} (hs : Opens s c tail)
    (hb : Balanced tail) :
    (∃ os gs left, Outside tail os gs left ∧
      ∀ t us, left = t :: us → ∃ e, ColumnOption.read t us = .error e) ∧
    ∀ os gs left, Outside tail os gs left →
      (∀ more, readAll left = .ok more → ((∀ g ∈ gs, g.Free) ↔
        Clause.read s = .ok (.column ((os ++ more).foldl Column.apply c)))) ∧
      ∀ x, Clause.read s = .ok (.column x) →
        ((∀ g ∈ gs, g.Free) ↔ ∀ g ∈ gs, g.tokens <:+: x.extra) := by
  refine ⟨Outside.exists_of_balanced hb, ?_⟩
  intro os gs left houtside
  refine ⟨fun more hmore => ⟨?_, ?_⟩, fun x hx => ⟨?_, hs.free_of_kept houtside hx⟩⟩
  · intro hfree
    rw [hs.read_of_free houtside hfree, hmore]
    rfl
  · intro hx
    exact hs.free_of_kept houtside hx (hs.infix_extra houtside more)
  · intro hfree
    rw [hs.read_of_free houtside hfree] at hx
    cases hmore : readAll left with
    | error e => rw [hmore] at hx; cases hx
    | ok more =>
      rw [hmore] at hx
      cases hx
      exact hs.infix_extra houtside more

/-- A computed value with NOT NULL inside is not kept whole, and one without options is. -/
theorem groups_kept_iff_computed :
    (∃ x os g, Clause.read "a INT AS (b IS NOT NULL)" = .ok (.column x) ∧ x.notNull = some true ∧
      Outside ((tokenize "a INT AS (b IS NOT NULL)").drop 2) os [g] [] ∧ ¬ g.Free ∧
        ¬ g.tokens <:+: x.extra) ∧
    ∃ x, Clause.read "a INT AS ((b)) NULL" = .ok (.column x) ∧ x.notNull = some false ∧
      x.extra = ((tokenize "a INT AS ((b)) NULL").drop 2).take 6 := by
  have htokens : tokenize "a INT AS (b IS NOT NULL)" = ⟨.word, "a", 0, false⟩ :: ⟨.word, "INT", 2, true⟩ ::
      ⟨.word, "AS", 6, true⟩ :: ((⟨.punct, "(", 9, true⟩ :: ([⟨.word, "b", 10, false⟩, ⟨.word, "IS", 12, true⟩,
        ⟨.word, "NOT", 15, true⟩, ⟨.word, "NULL", 19, true⟩] ++ [⟨.punct, ")", 23, false⟩])) ++ []) := by
    decide +kernel
  have htokens' : tokenize "a INT AS ((b)) NULL" = ⟨.word, "a", 0, false⟩ :: ⟨.word, "INT", 2, true⟩ ::
      ⟨.word, "AS", 6, true⟩ :: ((⟨.punct, "(", 9, true⟩ :: ([⟨.punct, "(", 10, false⟩,
        ⟨.word, "b", 11, false⟩, ⟨.punct, ")", 12, false⟩] ++ [⟨.punct, ")", 13, false⟩])) ++
          [⟨.word, "NULL", 15, true⟩]) := by
    decide +kernel
  rw [htokens, htokens']
  constructor
  · have hopens : Opens "a INT AS (b IS NOT NULL)" _ _ := ⟨_, _, _, _, htokens, rfl, rfl, rfl, rfl⟩
    have hgroup : IsGroup [⟨.word, "b", 10, false⟩, ⟨.word, "IS", 12, true⟩, ⟨.word, "NOT", 15, true⟩,
        ⟨.word, "NULL", 19, true⟩] _ :=
      ⟨⟨.punct, "(", 9, true⟩, ⟨.punct, ")", 23, false⟩, rfl, rfl, rfl, by decide⟩
    have houtside : Outside _ _ _ [] := .option (t := ⟨.word, "AS", 6, true⟩) rfl rfl
      (consumes_word (w := "AS") rfl _) (.group hgroup (.nil []))
    have hreach : Reaches [⟨.word, "AS", 6, true⟩, ⟨.punct, "(", 9, true⟩, ⟨.word, "b", 10, false⟩,
        ⟨.word, "IS", 12, true⟩, ⟨.word, "NOT", 15, true⟩, ⟨.word, "NULL", 19, true⟩, ⟨.punct, ")", 23, false⟩]
        _ [] :=
      .cons rfl <| .cons rfl <| .cons rfl <| .cons rfl <| .cons rfl <| .cons rfl <| .nil []
    have hall := hreach.readAll
    rw [readAll] at hall
    have hread := hopens.read.trans (congrArg (Except.map _) hall)
    have hiff := ((groups_kept_iff hopens (by decide)).2 _ _ _ houtside).2 _ hread
    rw [List.forall_mem_singleton, List.forall_mem_singleton] at hiff
    refine ⟨_, _, _, hread, rfl, houtside, ?_⟩
    rw [hiff, and_self]
    decide
  · have hopens : Opens "a INT AS ((b)) NULL" _ _ := ⟨_, _, _, _, htokens', rfl, rfl, rfl, rfl⟩
    have hgroup : IsGroup [⟨.punct, "(", 10, false⟩, ⟨.word, "b", 11, false⟩, ⟨.punct, ")", 12, false⟩] _ :=
      ⟨⟨.punct, "(", 9, true⟩, ⟨.punct, ")", 13, false⟩, rfl, rfl, rfl, by decide⟩
    have houtside : Outside _ _ _ [] := .option (t := ⟨.word, "AS", 6, true⟩) rfl rfl
      (consumes_word (w := "AS") rfl _) <| .group hgroup <| .option (t := ⟨.word, "NULL", 15, true⟩) rfl rfl
        (consumes_word (w := "NULL") rfl _) (.nil [])
    have hless : Optionless _ := .token (t := ⟨.punct, "(", 9, true⟩) rfl rfl <|
      .token (t := ⟨.punct, "(", 10, false⟩) rfl rfl <| .token (t := ⟨.word, "b", 11, false⟩) rfl rfl <|
      .token (t := ⟨.punct, ")", 12, false⟩) rfl rfl <| .token (t := ⟨.punct, ")", 13, false⟩) rfl rfl .nil
    have hread := (((groups_kept_iff hopens (by decide)).2 _ _ _ houtside).1 [] (by rw [readAll])).1
      (List.forall_mem_singleton.2 ⟨rfl, hless⟩)
    exact ⟨_, hread, rfl, rfl⟩

end Clause
end TableDialects
