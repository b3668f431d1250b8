/- Lists in which every item stands once. -/
namespace TableDialects

/-- Adds an item that is not there yet. -/
def addNew {α : Type} [BEq α] (seen : List α) (a : α) : List α :=
  if seen.contains a then seen else seen ++ [a]

def distinct {α : Type} [BEq α] (items : List α) : List α := items.foldl addNew []

variable {α : Type} [BEq α] [LawfulBEq α]

theorem mem_addNew (seen : List α) (a b : α) : b ∈ addNew seen a ↔ b ∈ seen ∨ b = a := by
  unfold addNew
  split
  · rename_i h
    have : a ∈ seen := List.contains_iff_mem.1 h
    constructor
    · exact Or.inl
    · rintro (h | rfl) <;> assumption
  · simp

theorem nodup_addNew {seen : List α} (h : seen.Nodup) (a : α) : (addNew seen a).Nodup := by
  unfold addNew
  split
  · exact h
  · rename_i new
    have : a ∉ seen := fun m => new (List.contains_iff_mem.2 m)
    rw [List.nodup_append]
    refine ⟨h, by simp, ?_⟩
    intro b hb c hc
    simp only [List.mem_singleton] at hc
    subst hc
    exact fun e => this (e ▸ hb)

theorem mem_foldl_addNew (items : List α) {seen : List α} {b : α} :
    b ∈ items.foldl addNew seen ↔ b ∈ seen ∨ b ∈ items := by
  induction items generalizing seen with
  | nil => simp
  | cons a items ih => rw [List.foldl_cons, ih, mem_addNew, List.mem_cons, or_assoc]

theorem mem_distinct {items : List α} {b : α} : b ∈ distinct items ↔ b ∈ items := by
  rw [distinct, mem_foldl_addNew]
  simp

theorem nodup_foldl_addNew (items : List α) {seen : List α} (h : seen.Nodup) :
    (items.foldl addNew seen).Nodup := by
  induction items generalizing seen with
  | nil => exact h
  | cons a items ih => exact ih (nodup_addNew h a)

theorem nodup_distinct (items : List α) : (distinct items).Nodup :=
  nodup_foldl_addNew items List.nodup_nil

end TableDialects
