/-
Dictionaries: tables from text to values that list their keys in order.

A key occurs once.  Texts are ordered by their code points, which is also the order of
their bytes, so two dictionaries with the same entries are equal.
-/

namespace BlockingSync

namespace Dict

variable {α : Type}

/-- Puts an entry where its key belongs; an entry with the same key gives way. -/
def insertSorted (key : String) (v : α) : List (String × α) → List (String × α)
  | [] => [(key, v)]
  | (k, w) :: rest =>
    if key < k then (key, v) :: (k, w) :: rest
    else if key = k then (key, v) :: rest
    else (k, w) :: insertSorted key v rest

/-- The entries in the order of their keys; of several with one key the last stays. -/
def sortedOf (entries : List (String × α)) : List (String × α) :=
  entries.foldl (fun sorted (key, v) => insertSorted key v sorted) []

/-- Each key is greater than the one before it. -/
def Sorted (entries : List (String × α)) : Prop :=
  entries.Pairwise fun a b => a.1 < b.1

theorem mem_insertSorted {key : String} {v : α} {entries : List (String × α)}
    {entry : String × α} (h : entry ∈ insertSorted key v entries) :
    entry = (key, v) ∨ entry ∈ entries := by
  induction entries with
  | nil => simpa [insertSorted] using h
  | cons head rest ih =>
      unfold insertSorted at h
      split at h
      · rcases List.mem_cons.1 h with h | h
        · exact .inl h
        · exact .inr h
      · split at h
        · rcases List.mem_cons.1 h with h | h
          · exact .inl h
          · exact .inr (List.mem_cons_of_mem _ h)
        · rcases List.mem_cons.1 h with h | h
          · exact .inr (h ▸ List.mem_cons_self)
          · rcases ih h with h | h
            · exact .inl h
            · exact .inr (List.mem_cons_of_mem _ h)

/-- Inserting keeps the keys in order. -/
theorem Sorted.insertSorted {entries : List (String × α)} (h : Sorted entries) (key : String)
    (v : α) : Sorted (insertSorted key v entries) := by
  induction entries with
  | nil => simp [Dict.insertSorted, Sorted]
  | cons head rest ih =>
      obtain ⟨k, w⟩ := head
      obtain ⟨hk, hrest⟩ := List.pairwise_cons.1 h
      unfold Dict.insertSorted
      split
      · rename_i hlt
        refine List.pairwise_cons.2 ⟨fun b hb => ?_, h⟩
        rcases List.mem_cons.1 hb with rfl | hb
        · exact hlt
        · exact String.lt_trans hlt (hk b hb)
      · split
        · rename_i heq
          subst heq
          exact List.pairwise_cons.2 ⟨hk, hrest⟩
        · rename_i hnlt hne
          refine List.pairwise_cons.2 ⟨fun b hb => ?_, ih hrest⟩
          rcases mem_insertSorted hb with rfl | hb
          · rcases Decidable.em (k < key) with hlt | hge
            · exact hlt
            · exact absurd (String.le_antisymm hge hnlt) hne
          · exact hk b hb

theorem sorted_sortedOf (entries : List (String × α)) : Sorted (sortedOf entries) := by
  have key : ∀ (l acc : List (String × α)), Sorted acc →
      Sorted (l.foldl (fun sorted (key, v) => insertSorted key v sorted) acc) := by
    intro l
    induction l with
    | nil => exact fun _ h => h
    | cons e l ih => exact fun acc h => ih _ (h.insertSorted e.1 e.2)
  exact key entries [] List.Pairwise.nil

end Dict

/-- A dictionary. -/
structure Dict (α : Type) where
  /-- The entries, least key first. -/
  entries : List (String × α)
  sorted : Dict.Sorted entries

namespace Dict

variable {α : Type}

/-- The dictionary with the given entries; of several with one key the last stays. -/
def ofList (entries : List (String × α)) : Dict α :=
  ⟨sortedOf entries, sorted_sortedOf entries⟩

end Dict

end BlockingSync
