/-!
Finite maps as lists of entries in the order in which their keys were first inserted. Inserting
at a key that is present replaces its value and keeps its place, so a key has at most one entry.
-/
namespace ClassCompiler

structure Table (κ α : Type) where
  entries : List (κ × α) := []
  deriving DecidableEq, Repr

namespace Table
variable {κ α : Type} [DecidableEq κ]

def find (k : κ) : List (κ × α) → Option α
  | [] => none
  | (j, v) :: rest => if j = k then some v else find k rest

def put (k : κ) (v : α) : List (κ × α) → List (κ × α)
  | [] => [(k, v)]
  | (j, w) :: rest => if j = k then (k, v) :: rest else (j, w) :: put k v rest

def get? (t : Table κ α) (k : κ) : Option α := find k t.entries

def insert (t : Table κ α) (k : κ) (v : α) : Table κ α := ⟨put k v t.entries⟩

def insertNew (t : Table κ α) (k : κ) (v : α) : Table κ α :=
  if (t.get? k).isSome then t else t.insert k v

def keys (t : Table κ α) : List κ := t.entries.map Prod.fst

def values (t : Table κ α) : List α := t.entries.map Prod.snd

@[simp] theorem getEmpty (k : κ) : ({} : Table κ α).get? k = none := rfl

theorem findPut (j k : κ) (v : α) (es : List (κ × α)) :
    find k (put j v es) = if j = k then some v else find k es := by
  induction es with
  | nil => simp [put, find]
  | cons e rest ih =>
    obtain ⟨i, w⟩ := e
    by_cases here : i = j
    · subst here
      by_cases same : i = k <;> simp [put, find, same]
    · by_cases same : i = k
      · subst same
        have other : j ≠ i := fun h => here h.symm
        simp [put, find, here, other]
      · simp [put, find, here, same, ih]

theorem getInsert (t : Table κ α) (j k : κ) (v : α) :
    (t.insert j v).get? k = if j = k then some v else t.get? k := findPut j k v t.entries

@[simp] theorem getInsertSelf (t : Table κ α) (k : κ) (v : α) :
    (t.insert k v).get? k = some v := by simp [getInsert]

theorem getInsertOther (t : Table κ α) {j k : κ} (v : α) (other : j ≠ k) :
    (t.insert j v).get? k = t.get? k := by simp [getInsert, other]

theorem getInsertNew (t : Table κ α) (j k : κ) (v : α) :
    (t.insertNew j v).get? k = if j = k then some ((t.get? k).getD v) else t.get? k := by
  unfold insertNew
  by_cases same : j = k
  · subst same
    cases found : t.get? j with
    | none => simp
    | some w => simp [found]
  · split <;> simp [getInsert, same]

theorem putKeys (k : κ) (v : α) (es : List (κ × α)) :
    (put k v es).map Prod.fst =
      if k ∈ es.map Prod.fst then es.map Prod.fst else es.map Prod.fst ++ [k] := by
  induction es with
  | nil => simp [put]
  | cons e rest ih =>
    obtain ⟨j, w⟩ := e
    by_cases here : j = k
    · simp [put, here]
    · have away : k ≠ j := fun h => here h.symm
      by_cases inside : k ∈ rest.map Prod.fst
      · rw [if_pos inside] at ih
        rw [if_pos (by simp only [List.map_cons]; exact List.mem_cons_of_mem _ inside)]
        simp [put, here, ih]
      · rw [if_neg inside] at ih
        rw [if_neg (by simp only [List.map_cons, List.mem_cons]; exact fun h => h.elim away inside)]
        simp [put, here, ih]

theorem insertKeysNodup {t : Table κ α} (unique : t.keys.Nodup) (k : κ) (v : α) :
    (t.insert k v).keys.Nodup := by
  unfold keys insert at *
  rw [putKeys]
  split
  · exact unique
  · rename_i fresh
    exact List.nodup_append.mpr ⟨unique, by simp, by
      intro a ha b hb same
      have last : b = k := by simpa using hb
      exact fresh (last ▸ same ▸ ha)⟩

end Table
end ClassCompiler
