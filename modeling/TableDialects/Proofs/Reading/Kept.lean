import TableDialects.Proofs.Reading.Default
import TableDialects.Proofs.Reading.Options

/- The tokens that the options of a column keep. An option keeps no tokens, or all
   that it is read from (`ColumnOption.read_kept`). A token that an option takes
   without keeping it is not found among those kept by any other
   (`ColumnOption.Lost.not_mem_kept`). -/
namespace TableDialects

/-! ## Balanced tokens -/

theorem staysOpen_append (depth : Int) (ts us : List Token) :
    staysOpen depth (ts ++ us) = (staysOpen depth ts && staysOpen (depthAfter depth ts) us) := by
  induction ts generalizing depth with
  | nil => rfl
  | cons t ts ih =>
    rw [List.cons_append, staysOpen, staysOpen, ih, Bool.and_assoc]
    rfl

theorem staysOpen_mono {depth depth' : Int} {ts : List Token} (hle : depth ≤ depth')
    (h : staysOpen depth ts = true) : staysOpen depth' ts = true := by
  induction ts generalizing depth depth' with
  | nil => rfl
  | cons t ts ih =>
    rw [staysOpen, Bool.and_eq_true, decide_eq_true_eq] at h ⊢
    exact ⟨by omega, ih (by omega) h.2⟩

theorem Balanced.append {ts us : List Token} (ht : Balanced ts) (hu : Balanced us) : Balanced (ts ++ us) := by
  constructor
  · rw [staysOpen_append, ht.1, ht.2, hu.1]
    rfl
  · rw [depthAfter_append, ht.2, hu.2]

theorem Balanced.behind {ts us : List Token} (ht : Balanced ts) (h : Balanced (ts ++ us)) : Balanced us := by
  obtain ⟨hstays, hdepth⟩ := h
  rw [staysOpen_append, ht.1, ht.2, Bool.true_and] at hstays
  rw [depthAfter_append, ht.2] at hdepth
  exact ⟨hstays, hdepth⟩

theorem turn_of_isWord {t : Token} {w : Text} (h : t.isWord w = true) : t.turn = 0 :=
  turn_of_kind (by rw [(isWord_iff.1 h).1]; decide)

theorem balanced_singleton {t : Token} (h : t.turn = 0) : Balanced [t] := by
  constructor
  · rw [staysOpen, h]
    rfl
  · rw [depthAfter_cons, h]
    rfl

theorem IsGroup.balanced {inner g : List Token} (h : IsGroup inner g) : Balanced g := by
  obtain ⟨o, c, rfl, ho, hc, hstays, hdepth⟩ := h
  have hinner : depthAfter 1 inner = 1 := by rw [depthAfter_add, hdepth]; rfl
  constructor
  · rw [staysOpen, turn_of_isOpen ho, staysOpen_append]
    have hwithin : staysOpen (0 + 1) inner = true := staysOpen_mono (by decide) hstays
    rw [hwithin, show (0 + 1 : Int) = 1 from rfl, hinner, staysOpen, turn_of_isClose hc]
    rfl
  · rw [depthAfter_cons, depthAfter_append, turn_of_isOpen ho, show (0 + 1 : Int) = 1 from rfl, hinner,
      depthAfter_cons, turn_of_isClose hc]
    rfl

def Consumes (ts left : List Token) : Prop := ∃ front, ts = front ++ left ∧ Balanced front

theorem Consumes.refl (ts : List Token) : Consumes ts ts := ⟨[], rfl, rfl, rfl⟩

theorem Consumes.trans {ts us left : List Token} (h : Consumes ts us) (h' : Consumes us left) :
    Consumes ts left := by
  obtain ⟨front, rfl, hfront⟩ := h
  obtain ⟨more, rfl, hmore⟩ := h'
  exact ⟨front ++ more, (List.append_assoc front more left).symm, hfront.append hmore⟩

theorem consumes_of_turn {t : Token} (h : t.turn = 0) (ts : List Token) : Consumes (t :: ts) ts :=
  ⟨[t], rfl, balanced_singleton h⟩

theorem consumes_word {t : Token} {w : Text} (h : t.isWord w = true) (ts : List Token) :
    Consumes (t :: ts) ts := consumes_of_turn (turn_of_isWord h) ts

theorem consumes_afterWords? {words : List String} {ts left : List Token}
    (h : afterWords? words ts = some left) : Consumes ts left := by
  have hwords : ∀ (words : List Text) (ts : List Token), startsWithWords words ts = true →
      Consumes ts (ts.drop words.length) := by
    intro words ts h
    induction words generalizing ts with
    | nil => exact Consumes.refl ts
    | cons w words ih =>
      cases ts with
      | nil => cases h
      | cons t ts =>
        rw [startsWithWords, Bool.and_eq_true] at h
        exact (consumes_word h.1 ts).trans (ih ts h.2)
  unfold afterWords? at h
  split at h
  · rename_i hstarts
    cases h
    simpa using hwords _ ts hstarts
  · cases h

theorem isGroup_of_takeGroup {ts inner left : List Token} (h : takeGroup ts = .ok (inner, left)) :
    ∃ g, IsGroup inner g ∧ ts = g ++ left := by
  unfold takeGroup at h
  split at h
  · cases h
  · rename_i o ts
    split at h
    · rename_i ho
      split at h
      · rename_i hclose
        cases h
        obtain ⟨hstays, hdepth, c, hc, rfl⟩ := closeGroup?_balanced hclose
        exact ⟨o :: (inner ++ [c]), ⟨o, c, rfl, ho, hc, hstays, hdepth⟩, by simp⟩
      · cases h
    · cases h

/-- A group that opens is closed where the depth comes back to where it was. -/
theorem takeGroup_of_depth {o : Token} {ts : List Token} (ho : o.isOpen = true)
    (h : depthAfter 0 (o :: ts) ≤ 0) : ∃ inner left, takeGroup (o :: ts) = .ok (inner, left) := by
  cases hclose : closeGroup? 0 ts with
  | none =>
    have hstays := staysOpen_of_unclosed hclose
    rw [← List.append_nil ts] at hstays
    have hnonneg := depthAfter_nonneg (Int.le_refl 0) hstays
    rw [depthAfter_cons, turn_of_isOpen ho, depthAfter_add] at h
    omega
  | some p =>
    refine ⟨p.1, p.2, ?_⟩
    rw [takeGroup, if_pos ho, hclose]

theorem consumes_takeGroup {ts inner left : List Token} (h : takeGroup ts = .ok (inner, left)) :
    Consumes ts left := by
  obtain ⟨g, hg, rfl⟩ := isGroup_of_takeGroup h
  exact ⟨g, rfl, hg.balanced⟩

theorem consumes_drop_word (words : List String) (ts : List Token) :
    Consumes ts (if startsWithWordOf words ts then ts.drop 1 else ts) := by
  split
  · rename_i hword
    cases ts with
    | nil => exact Consumes.refl []
    | cons t ts =>
      rw [startsWithWordOf, isWordOf_eq_any, List.any_eq_true] at hword
      obtain ⟨w, -, hw⟩ := hword
      exact consumes_word hw ts
  · exact Consumes.refl ts

/-! ## The tokens that are kept -/

namespace ColumnOption

def kept : ColumnOption → List Token
  | .other ts => ts
  | _ => []

end ColumnOption

theorem Column.extra_foldl_apply (os : List ColumnOption) (c : Column) :
    (os.foldl Column.apply c).extra = c.extra ++ os.flatMap ColumnOption.kept := by
  induction os generalizing c with
  | nil => exact (List.append_nil c.extra).symm
  | cons o os ih =>
    rw [List.foldl_cons, ih, List.flatMap_cons, ← List.append_assoc]
    congr 1
    cases o <;> simp [Column.apply, ColumnOption.kept]

theorem Column.foldl_apply_other (pieces : List (List Token)) (c : Column) :
    (pieces.map ColumnOption.other).foldl Column.apply c = c.apply (.other pieces.flatten) := by
  induction pieces generalizing c with
  | nil => simp [Column.apply]
  | cons piece pieces ih =>
    rw [List.map_cons, List.foldl_cons, ih]
    simp [Column.apply]

namespace ColumnOption

/-- The tokens start with the keywords of an option. -/
def recognized (ts : List Token) : Bool :=
  (afterCheck? ts).isSome || table.any fun e => (afterWords? e.1 ts).isSome

theorem isSome_byKeyword? (table : List (List String × (List Token → Reading ColumnOption)))
    (ts : List Token) : (byKeyword? table ts).isSome = table.any fun e => (afterWords? e.1 ts).isSome := by
  induction table with
  | nil => rfl
  | cons e table ih =>
    obtain ⟨words, reader⟩ := e
    rw [byKeyword?, List.any_cons]
    cases afterWords? words ts with
    | some rest => rfl
    | none => exact ih

def Keepless (reader : List Token → Reading ColumnOption) : Prop :=
  ∀ ts o left, reader ts = .ok (o, left) → o.kept = []

theorem keepless_mapValue {α : Type} (reader : List Token → Reading α) (f : α → ColumnOption)
    (hf : ∀ a, (f a).kept = []) : Keepless fun ts => (reader ts).mapValue f := by
  intro ts o left h
  obtain ⟨a, -, rfl⟩ := Reading.of_mapValue_ok h
  exact hf a

theorem keepless_table : ∀ e ∈ table, Keepless e.2 := by
  intro e he
  have hplain : ∀ {option : ColumnOption} {rest : List Token → List Token}, option.kept = [] →
      Keepless fun ts => .ok (option, rest ts) := by
    intro option rest ho ts o left h
    cases h
    exact ho
  simp only [table, List.mem_cons, List.not_mem_nil, or_false] at he
  rcases he with rfl | rfl | rfl | rfl | rfl | rfl | rfl | rfl | rfl | rfl | rfl | rfl | rfl | rfl |
    rfl | rfl
  · exact hplain rfl
  · exact hplain rfl
  · exact keepless_mapValue takeExpression _ fun e => rfl
  · exact hplain rfl
  · exact hplain rfl
  · intro ts o left h
    rw [eq_of_skipGroup h]
    rfl
  · exact hplain rfl
  · exact hplain rfl
  · exact keepless_mapValue takeReference _ fun r => rfl
  · exact keepless_mapValue takeExpression _ fun e => rfl
  · exact keepless_mapValue takeToken (fun _ => skipped) fun t => rfl
  · exact keepless_mapValue takeToken ofComment fun t => rfl
  · exact keepless_mapValue takeToken (fun t => collate t.value) fun t => rfl
  · exact keepless_mapValue takeToken (fun _ => skipped) fun t => rfl
  · exact keepless_mapValue takeToken (fun _ => skipped) fun t => rfl
  · exact keepless_mapValue (takeName _) (fun _ => skipped) fun n => rfl

theorem byKeyword?_keepless {table : List (List String × (List Token → Reading ColumnOption))}
    (ht : ∀ e ∈ table, Keepless e.2) {ts left : List Token} {o : ColumnOption}
    (h : byKeyword? table ts = some (.ok (o, left))) : o.kept = [] := by
  induction table with
  | nil => cases h
  | cons e table ih =>
    obtain ⟨words, reader⟩ := e
    rw [byKeyword?] at h
    split at h
    · exact ht _ List.mem_cons_self _ _ _ (Option.some.inj h)
    · exact ih (fun e he => ht e (List.mem_cons_of_mem _ he)) h

theorem read_other {t : Token} {ts : List Token} (ht : t.isWord "GENERATED" = false)
    (h : recognized (t :: ts) = false) : read t ts = .ok (.other [t], ts) := by
  rw [recognized, ← isSome_byKeyword?, Bool.or_eq_false_iff, Option.isSome_eq_false_iff,
    Option.isSome_eq_false_iff, Option.isNone_iff_eq_none, Option.isNone_iff_eq_none] at h
  rw [read, ht, if_neg Bool.false_ne_true, h.1, h.2]
  rfl

theorem read_recognized {t : Token} {ts left : List Token} {o : ColumnOption}
    (ht : t.isWord "GENERATED" = false) (h : recognized (t :: ts) = true)
    (hread : read t ts = .ok (o, left)) : o.kept = [] := by
  rw [read, ht, if_neg Bool.false_ne_true] at hread
  split at hread
  · exact keepless_mapValue takeGroup _ (fun _ => rfl) _ _ _ hread
  · rename_i hcheck
    rw [recognized, hcheck, ← isSome_byKeyword?, Option.isSome_none, Bool.false_or,
      Option.isSome_iff_exists] at h
    obtain ⟨r, hr⟩ := h
    rw [hr, Option.getD_some] at hread
    rw [hread] at hr
    exact byKeyword?_keepless keepless_table hr

theorem consumes_afterGenerated (ts : List Token) : Consumes ts (afterGenerated ts) := by
  unfold afterGenerated
  cases halways : afterWords? ["ALWAYS"] ts with
  | some left => exact consumes_afterWords? halways
  | none =>
    cases hdefault : afterWords? ["BY", "DEFAULT"] ts with
    | some left => exact consumes_afterWords? hdefault
    | none => exact Consumes.refl ts

/-- What follows GENERATED is an identity, or it is kept whole, with the group behind
AS. -/
theorem generated_kept {t : Token} {ts left : List Token} {o : ColumnOption}
    (ht : t.isWord "GENERATED" = true) (h : generated (t :: ts) ts = .ok (o, left)) :
    o = .autoIncrement ∨ ∃ front, t :: ts = front ++ left ∧ o = .other front ∧ Balanced front := by
  have hstart : Consumes (t :: ts) (afterGenerated ts) :=
    (consumes_word ht ts).trans (consumes_afterGenerated ts)
  -- The tokens in front of those left are the ones kept.
  have hkept : ∀ {left : List Token}, Consumes (t :: ts) left →
      ∃ front, t :: ts = front ++ left ∧
        other ((t :: ts).take ((t :: ts).length - left.length)) = other front ∧ Balanced front := by
    rintro left ⟨front, hfront, hbalanced⟩
    refine ⟨front, hfront, ?_, hbalanced⟩
    rw [hfront, List.length_append, Nat.add_sub_cancel, List.take_left]
  rw [generated] at h
  generalize afterGenerated ts = us at h hstart
  unfold computed at h
  split at h
  · exact .inl (eq_of_skipGroup h)
  · split at h
    · cases h
      exact .inr (hkept hstart)
    · rename_i has
      have hrest := hstart.trans (consumes_afterWords? has)
      split at h
      · split at h
        · cases h
        · rename_i hgroup
          cases h
          exact .inr (hkept ((hrest.trans (consumes_takeGroup hgroup)).trans (consumes_drop_word _ _)))
      · cases h
        exact .inr (hkept hrest)

theorem read_kept {t : Token} {ts left : List Token} {o : ColumnOption} (h : read t ts = .ok (o, left)) :
    o.kept = [] ∨ ∃ front, t :: ts = front ++ left ∧ o = .other front ∧ (front = [t] ∨ Balanced front) := by
  cases ht : t.isWord "GENERATED" with
  | true =>
    rw [read, ht, if_pos rfl] at h
    rcases generated_kept ht h with rfl | ⟨front, hfront, ho, hbalanced⟩
    · exact .inl rfl
    · exact .inr ⟨front, hfront, ho, .inr hbalanced⟩
  | false =>
    cases hknown : recognized (t :: ts) with
    | true => exact .inl (read_recognized ht hknown h)
    | false =>
      rw [read_other ht hknown] at h
      cases h
      exact .inr ⟨[t], rfl, rfl, .inl rfl⟩

theorem read_behind {t : Token} {ts left : List Token} {o : ColumnOption} (h : read t ts = .ok (o, left)) :
    left <:+ ts := by
  obtain ⟨hsuffix, hlength⟩ := read_isBehind h
  rcases List.suffix_cons_iff.1 hsuffix with hall | hleft
  · rw [hall] at hlength
    exact absurd hlength (Nat.lt_irrefl _)
  · exact hleft

/-! ## Readings in part -/

/-- The options are read from the first tokens, one after the other, and the others
are left. -/
inductive Reaches : List Token → List ColumnOption → List Token → Prop
  | nil (ts : List Token) : Reaches ts [] ts
  | cons {t : Token} {ts mid left : List Token} {o : ColumnOption} {os : List ColumnOption}
    (h : read t ts = .ok (o, mid)) (hmore : Reaches mid os left) : Reaches (t :: ts) (o :: os) left

namespace Reaches

variable {ts mid left : List Token} {os os' : List ColumnOption}

theorem append (h : Reaches ts os mid) (h' : Reaches mid os' left) : Reaches ts (os ++ os') left := by
  induction h with
  | nil => exact h'
  | cons h _ ih => exact .cons h (ih h')

/-- All options are those read in part and those of the tokens left. -/
theorem readAll (h : Reaches ts os left) :
    ColumnOption.readAll ts = (ColumnOption.readAll left).map (os ++ ·) := by
  induction h with
  | nil ts => cases ColumnOption.readAll ts <;> rfl
  | cons h _ ih =>
    rw [readAll_cons, h]
    dsimp only
    rw [ih]
    cases ColumnOption.readAll _ <;> rfl

theorem kept_subset (h : Reaches ts os left) : ∃ front, ts = front ++ left ∧ os.flatMap kept ⊆ front := by
  induction h with
  | nil ts => exact ⟨[], rfl, List.nil_subset _⟩
  | @cons t ts mid left o os hread _ ih =>
    obtain ⟨behind, rfl, hsub⟩ := ih
    rcases read_kept hread with hnone | ⟨front, hfront, rfl, -⟩
    · obtain ⟨front, rfl⟩ := read_behind hread
      refine ⟨t :: (front ++ behind), by simp, ?_⟩
      rw [List.flatMap_cons, hnone, List.nil_append]
      exact List.Subset.trans hsub
        (List.Subset.trans (List.subset_append_right front behind) (List.subset_cons_self t _))
    · refine ⟨front ++ behind, by rw [hfront, List.append_assoc], ?_⟩
      rw [List.flatMap_cons]
      exact List.append_subset.2 ⟨List.subset_append_left front behind,
        List.Subset.trans hsub (List.subset_append_right front behind)⟩

end Reaches

theorem reaches_of_readAll {ts : List Token} {os : List ColumnOption} (h : readAll ts = .ok os) :
    Reaches ts os [] := by
  fun_induction readAll ts generalizing os with
  | case1 =>
    cases h
    exact .nil []
  | case2 => cases h
  | case3 => cases h
  | case4 t ts o left hread os' hmore ih =>
    cases h
    exact .cons hread (ih hmore)

/-- Reading comes to an option that takes the token and keeps no tokens. -/
def Lost (ts : List Token) (t : Token) : Prop :=
  ∃ os u us, Reaches ts os (u :: us) ∧ ∀ o left, read u us = .ok (o, left) →
    o.kept = [] ∧ ∃ front, u :: us = front ++ left ∧ t ∈ front

theorem Lost.of_reaches {ts mid : List Token} {os : List ColumnOption} {t : Token} (h : Lost mid t)
    (hreach : Reaches ts os mid) : Lost ts t := by
  obtain ⟨os', u, us, hmore, hread⟩ := h
  exact ⟨os ++ os', u, us, hreach.append hmore, hread⟩

theorem lost_head {t : Token} {ts : List Token} (h : ∀ o left, read t ts = .ok (o, left) → o.kept = []) :
    Lost (t :: ts) t := by
  refine ⟨[], t, ts, .nil _, ?_⟩
  intro o left hread
  obtain ⟨front, rfl⟩ := read_behind hread
  exact ⟨h o left hread, t :: front, rfl, List.mem_cons_self⟩

/-- A token that is lost is not kept by any option, since it stands at one place
only. -/
theorem Lost.not_mem_kept {ts : List Token} {t : Token} (h : Lost ts t) (hts : ts.Nodup)
    {os : List ColumnOption} (hall : readAll ts = .ok os) : t ∉ os.flatMap kept := by
  obtain ⟨before, u, us, hreach, hread⟩ := h
  obtain ⟨start, rfl, hstart⟩ := hreach.kept_subset
  rw [hreach.readAll, readAll_cons] at hall
  split at hall
  · cases hall
  · rename_i o left hstep
    obtain ⟨hnone, front, hfront, ht⟩ := hread o left hstep
    cases hmore : readAll left with
    | error e => rw [hmore] at hall; cases hall
    | ok behind =>
      rw [hmore] at hall
      cases hall
      obtain ⟨tail, htail, hbehind⟩ := (reaches_of_readAll hmore).kept_subset
      rw [List.append_nil] at htail
      subst htail
      rw [hfront, List.nodup_append] at hts
      obtain ⟨-, hts, hbefore⟩ := hts
      rw [List.nodup_append] at hts
      rw [List.flatMap_append, List.flatMap_cons, hnone, List.nil_append, List.mem_append]
      rintro (hin | hin)
      · exact hbefore t (hstart hin) t (List.mem_append_left left ht) rfl
      · exact hts.2.2 t ht t (hbehind hin) rfl

end ColumnOption
end TableDialects
