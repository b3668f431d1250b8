import TableDialects.Proofs.Types.Keyword

/- Types from one dialect to another, for `translateType`. A common type becomes a
   written type, of the same kind but where SQLite makes a fixed length varying
   (`translateType_core`). Only types with sound parameters are common. The rules of
   the source dialects are silent on most of them (`sourceRule?_unruled`), and the
   table of every dialect knows all of them (`coreTypes_known`). -/
namespace TableDialects

/-! ## Looking up a type -/

theorem tableValue?_eq_some {α : Type} {table : List (String × α)} {name : Text} {v : α}
    (h : tableValue? table name = some v) : ∃ e ∈ table, e.1.toList = name ∧ e.2 = v := by
  unfold tableValue? at h
  rw [Option.map_eq_some_iff] at h
  obtain ⟨e, hfind, hv⟩ := h
  have hname := List.find?_some hfind
  exact ⟨e, List.mem_of_find?_eq_some hfind, beq_iff_eq.1 hname, hv⟩

/-- A type that is looked up is listed with its parameters or without them. -/
theorem lookupType_eq_some {α : Type} {table : List (String × α)} {base params : Text} {v : α}
    (h : lookupType table base params = some v) :
    ∃ e ∈ table, e.2 = v ∧ (e.1.toList = Text.strip (Text.lower base) ++ Text.lower (params.filter (· != ' ')) ∨
      e.1.toList = Text.strip (Text.lower base)) := by
  unfold lookupType at h
  dsimp only at h
  split at h
  · rename_i entry hentry
    cases h
    split at hentry
    · cases hentry
    · obtain ⟨e, he, hname, hv⟩ := tableValue?_eq_some hentry
      exact ⟨e, he, hv, .inl hname⟩
  · obtain ⟨e, he, hname, hv⟩ := tableValue?_eq_some h
    exact ⟨e, he, hv, .inr hname⟩

theorem tableValue?_of_mem {α : Type} {table : List (String × α)} {b : String}
    (h : b ∈ table.map Prod.fst) : ∃ v, tableValue? table b.toList = some v := by
  obtain ⟨e, he, rfl⟩ := List.mem_map.1 h
  unfold tableValue?
  cases hfind : table.find? fun f => f.1.toList == e.1.toList with
  | some f => exact ⟨f.2, rfl⟩
  | none => exact absurd (beq_self_eq_true _) (List.find?_eq_none.1 hfind e he)

theorem coreTypes_known {b : String} (h : b ∈ coreTypes) (target : Dialect) :
    b ∈ target.profile.types.map Prod.fst := by
  unfold coreTypes at h
  rw [List.mem_filter, Bool.and_eq_true, List.all_eq_true] at h
  obtain ⟨hmysql, -, hothers⟩ := h
  have hother : ∀ table ∈ [postgresqlTypes, sqliteTypes, sqlserverTypes], b ∈ table.map Prod.fst :=
    fun table ht => List.contains_iff_mem.1 (hothers table ht)
  cases target with
  | mysql => exact hmysql
  | postgresql => exact hother postgresqlTypes (by simp)
  | sqlite => exact hother sqliteTypes (by simp)
  | sqlserver => exact hother sqlserverTypes (by simp)

theorem length_le_utf8ByteSize (s : String) : s.toList.length ≤ s.utf8ByteSize := by
  have hlist : ∀ cs : Text, cs.length ≤ (String.ofList cs).utf8ByteSize := by
    intro cs
    induction cs with
    | nil => exact Nat.zero_le _
    | cons c cs ih =>
      have hpos := Char.utf8Size_pos c
      rw [← List.singleton_append, String.ofList_append, String.utf8ByteSize_append]
      have hc : (String.ofList [c]).utf8ByteSize = c.utf8Size := by
        rw [← String.singleton_eq_ofList, String.utf8ByteSize_singleton]
      rw [hc, List.length_append]
      simp only [List.length_cons, List.length_nil]
      omega
  simpa using hlist s.toList

theorem isOverlong_of_entry {target : Dialect} {e : String × String} (he : e ∈ target.profile.types)
    {b params : Text} (hname : e.1.toList = b ++ params) : LengthKind.isOverlong params = false := by
  have hsize : ∀ target ∈ Dialect.all, ∀ e ∈ target.profile.types, e.1.utf8ByteSize < 100 := by
    decide +kernel
  have hlength : params.length < 100 := by
    have hle := length_le_utf8ByteSize e.1
    have hlt := hsize target (by cases target <;> decide) e he
    rw [hname, List.length_append] at hle
    omega
  unfold LengthKind.isOverlong
  rw [show decide (Numeral.digitLimit + 2 < params.length) = false from
    decide_eq_false (by unfold Numeral.digitLimit; omega), Bool.and_false]

/-- The keyword of an entry for a type that does not count up, unless the target
can count with a plain integer type. -/
theorem entry_keyword {target : Dialect} {e : String × String} (he : e ∈ target.profile.types)
    (hserial : target = .mysql ∨ e.1 ∉ Column.serialTypes) :
    e.2 ∈ typeKeywords ∧ LengthKind.ofKeyword e.2 = (LengthKind.ofBase e.1.toList).carried target ∧
      (e.2 ∈ strayKeywords → target ≠ .sqlserver) := by
  have h := isTypeEntry_of_mem target (by cases target <;> decide) e he
  unfold isTypeEntry at h
  rw [Bool.or_eq_true] at h
  have h := h.resolve_left fun hs => by
    rw [Bool.and_eq_true, bne_iff_ne, List.contains_iff_mem] at hs
    exact hserial.elim hs.1 fun hn => hn hs.2
  rw [Bool.and_eq_true, Bool.and_eq_true, List.contains_iff_mem, beq_iff_eq, Bool.or_eq_true, bne_iff_ne,
    Bool.not_eq_true', List.contains_eq_mem, decide_eq_false_iff_not, ← LengthKind.ofBase_toList] at h
  exact ⟨h.1.1, h.1.2, fun hb => h.2.resolve_right fun hne => hne hb⟩

theorem lookupType_core {α : Type} (table : List (String × α)) {b : String} (hb : b ∈ coreTypes)
    {q : Params} (hq : q.isSound = true) (hlow : q.lowered = q) :
    lookupType table b.toList q.text =
      (if q.text.isEmpty then none else tableValue? table (b.toList ++ q.text)).or (tableValue? table b.toList) := by
  have hname := TypeParts.isBaseName_of_core hb
  have hlower : Text.lower b.toList = b.toList := by
    have h := hname.lower_append (p := .absent) rfl
    rwa [show Params.absent.lowered.text = [] from rfl, show Params.absent.text = [] from rfl,
      List.append_nil] at h
  unfold lookupType
  rw [hlower, hname.strip_self, Params.filter_text hq, Params.lower_text hq, hlow]
  dsimp only
  cases (if q.text.isEmpty then none else tableValue? table (b.toList ++ q.text) : Option α) <;> rfl

theorem lookupType_joined {α : Type} (table : List (String × α)) {b : String} (hb : b ∈ coreTypes)
    {q : Params} (hq : q.isSound = true) (hlow : q.lowered = q) :
    lookupType table (b.toList ++ q.text) [] = tableValue? table (b.toList ++ q.text) := by
  have hname := TypeParts.isBaseName_of_core hb
  unfold lookupType
  rw [hname.lower_append hq, hlow, hname.strip_append (Params.not_isBlank_text hq)]
  rfl

/-- The tables give a written type for every common type that does not count up. -/
theorem tableType?_core {target : Dialect} {b : String} (hb : b ∈ coreTypes)
    (hserial : target = .mysql ∨ b ∉ Column.serialTypes) {q : Params} (hq : q.isSound = true)
    (hlow : q.lowered = q) :
    ∃ f : TypeForm, tableType? target ⟨b.toList, q.text⟩ = some f.text ∧
      f.IsKind ((LengthKind.ofType b.toList q.text).carried target) (target ≠ .sqlserver) := by
  unfold tableType?
  dsimp only
  rw [lookupType_core _ hb hq hlow, lookupType_joined _ hb hq hlow]
  obtain ⟨k, hk⟩ := tableValue?_of_mem (coreTypes_known hb target)
  cases hjoined : if q.text.isEmpty then none else tableValue? target.profile.types (b.toList ++ q.text) with
  | some k =>
    -- The table has the name with its parameters.
    split at hjoined
    · cases hjoined
    rename_i hne
    obtain ⟨e, he, hname, rfl⟩ := tableValue?_eq_some hjoined
    have hserial : e.1 ∉ Column.serialTypes := by
      have hopen : ∀ n ∈ Column.serialTypes, '(' ∉ n.toList := by decide
      intro hn
      refine hopen e.1 hn ?_
      rw [hname]
      rcases q.cases_tokens with rfl | ⟨-, htext⟩
      · exact absurd rfl hne
      · rw [htext]
        exact List.mem_append_right _ List.mem_cons_self
    obtain ⟨hk, -, hstray⟩ := entry_keyword he (.inr hserial)
    obtain ⟨htext, hplain, hlength⟩ := ofKeyword_sound hk
    refine ⟨TypeForm.ofKeyword e.2.toList, ?_, ⟨hplain, ?_, fun hover => ?_⟩⟩
    · rw [Option.some_or]
      dsimp only
      rw [hjoined, htext]
      simp [hne]
    · rw [TypeForm.kind, LengthKind.ofType_of_length hlength, LengthKind.ofType,
        isOverlong_of_entry he hname]
      cases target <;> rfl
    · rw [LengthKind.isOverlong_of_length hlength] at hover
      cases hover
  | none =>
    have hother : (tableValue? target.profile.types (b.toList ++ q.text) == some k && !q.text.isEmpty) = false := by
      split at hjoined
      · rename_i hempty
        rw [hempty]
        exact Bool.and_false _
      · rw [hjoined]
        rfl
    obtain ⟨e, he, hname, rfl⟩ := tableValue?_eq_some hk
    have hname : e.1 = b := String.toList_inj.1 hname
    obtain ⟨hin, hkind, hstray⟩ := entry_keyword he (hname ▸ hserial)
    obtain ⟨f, htext, hf⟩ := withParams_keyword hin hq
    refine ⟨f, ?_, ⟨hf.toIsPlain, ?_, fun hover hb => hstray (hf.stray hover hb)⟩⟩
    · rw [Option.none_or, hk]
      dsimp only
      rw [hother, htext]
      rfl
    · rw [hf.kind, hkind, hname, LengthKind.ofType]
      split
      · rfl
      · cases target <;> rfl

/-! ## The rules of the source dialects -/

theorem sourceRule?_keyword {source target : Dialect} {parts : TypeParts} {type : Text} {k : String}
    (h : sourceRule? source target parts type = some k) : k ∈ typeKeywords := by
  have hboolean : target.profile.booleanType ∈ typeKeywords := by cases target <;> decide
  unfold sourceRule? at h
  cases source <;> dsimp only at h <;> repeat' split at h
  all_goals cases h
  all_goals first | exact hboolean | decide

/-- The names of the types with a length of characters. -/
def characterTypes : List String := ["char", "nchar", "character", "varchar", "nvarchar", "character varying"]

theorem mem_characterTypes {b : String} (h : LengthKind.ofBase b.toList ≠ .free) : b ∈ characterTypes := by
  rw [LengthKind.ofBase_toList] at h
  unfold LengthKind.ofName at h
  split at h
  · rename_i hfixed
    exact (by decide : ["char", "nchar", "character"] ⊆ characterTypes) (List.contains_iff_mem.1 hfixed)
  split at h
  · rename_i hvarying
    exact (by decide : ["varchar", "nvarchar", "character varying"] ⊆ characterTypes)
      (List.contains_iff_mem.1 hvarying)
  · exact absurd rfl h

/-- The names that the rules are about, but for those of times and the length MAX. -/
def ruledNames : List String :=
  ["enum", "set", "tinyint", "serial", "bigserial", "boolean", "bool", "jsonb", "datetime", "bit"]

theorem sourceRule?_unruled {source : Dialect} (target : Dialect) {b params : Text}
    (hother : ∀ n ∈ ruledNames, (b == n.toList) = false) (hstamp : (Text.after? "timestamp" b).isSome = false)
    (hmax : source = .sqlserver → params ≠ "(max)".toList) (type : Text) :
    sourceRule? source target ⟨b, params⟩ type = none := by
  simp only [ruledNames, List.forall_mem_cons] at hother
  obtain ⟨henum, hset, htiny, hserial, hbigserial, hboolean, hbool, hjsonb, hdatetime, hbit, -⟩ := hother
  unfold sourceRule?
  cases source with
  | mysql => simp only [henum, hset, htiny]; rfl
  | postgresql => simp only [hserial, hbigserial, hboolean, hbool, hjsonb, hstamp]; rfl
  | sqlite => simp only [hdatetime]; rfl
  | sqlserver =>
    have hmax : (params == "(max)".toList) = false := beq_eq_false_iff_ne.2 (hmax rfl)
    simp only [hbit, hmax]
    rfl

/-- No rule is about a character type, but for the length MAX. -/
theorem sourceRule?_character {source : Dialect} (target : Dialect) {b : String} (hb : b ∈ characterTypes)
    {params : Text} (hmax : source = .sqlserver → params ≠ "(max)".toList) (type : Text) :
    sourceRule? source target ⟨b.toList, params⟩ type = none := by
  have hother : ∀ b ∈ characterTypes, (∀ n ∈ ruledNames, (b.toList == n.toList) = false) ∧
      (Text.after? "timestamp" b.toList).isSome = false := by decide +kernel
  exact sourceRule?_unruled target (hother b hb).1 (hother b hb).2 hmax type

/-! ## Translation -/

theorem LengthKind.isOverlong_max : LengthKind.isOverlong "(max)".toList = false := by decide

/-- A common type becomes a written type of the kind that the target gives it. -/
theorem translateType_core (source target : Dialect) {b : String} (hb : b ∈ coreTypes)
    (hserial : target = .mysql ∨ b ∉ Column.serialTypes) {p : Params} (hp : p.isSound = true) :
    ∃ f : TypeForm, translateType (some source) target (b.toList ++ p.text) = f.text ∧
      f.IsKind ((LengthKind.ofType b.toList p.text).carried target) (target ≠ .sqlserver) := by
  have hname := TypeParts.isBaseName_of_core hb
  have hlow := Params.isSound_lowered hp
  have hover : LengthKind.isOverlong p.lowered.text = LengthKind.isOverlong p.text := by
    cases p with
    | word w =>
      rw [Params.isSound, Bool.or_eq_true, beq_iff_eq, beq_iff_eq] at hp
      rcases hp with rfl | rfl <;> decide
    | _ => rfl
  have hkind : LengthKind.ofType b.toList p.text = LengthKind.ofType b.toList p.lowered.text := by
    rw [LengthKind.ofType, LengthKind.ofType, hover]
  unfold translateType
  dsimp only
  rw [normalType_core hname hp, TypeParts.split_core hname hlow, hkind]
  cases hrule : sourceRule? source target ⟨b.toList, p.lowered.text⟩ (b.toList ++ p.lowered.text) with
  | some k =>
    obtain ⟨htext, hplain, hlength⟩ := ofKeyword_sound (sourceRule?_keyword hrule)
    have hfree : LengthKind.ofType b.toList p.lowered.text = .free := by
      unfold LengthKind.ofType
      split
      · rename_i hlong
        have hmax : p.lowered.text ≠ "(max)".toList := by
          intro hmax
          rw [hmax, LengthKind.isOverlong_max] at hlong
          cases hlong
        refine Decidable.byContradiction fun hne => ?_
        rw [sourceRule?_character target (mem_characterTypes hne) fun _ => hmax] at hrule
        cases hrule
      · rfl
    refine ⟨TypeForm.ofKeyword k.toList, ?_, ⟨hplain, ?_, fun hlong => ?_⟩⟩
    · rw [htext]
      simp [hrule]
    · rw [hfree, TypeForm.kind, LengthKind.ofType_of_length hlength]
      cases target <;> rfl
    · rw [LengthKind.isOverlong_of_length hlength] at hlong
      cases hlong
  | none =>
    obtain ⟨f, htype, hf⟩ := tableType?_core hb hserial hlow p.lowered_lowered
    refine ⟨f, ?_, hf⟩
    simp [hrule, htype]

end TableDialects
