import ClassCompiler.Table

/-! Tables under a change of their values: keys and order stay, so looking up and inserting commute
with the change. A new key comes last. -/
namespace ClassCompiler.Table
variable {κ α β : Type} [DecidableEq κ]

def map (f : α → β) (t : Table κ α) : Table κ β := ⟨t.entries.map fun e => (e.1, f e.2)⟩

theorem findMap (f : α → β) (k : κ) (es : List (κ × α)) :
    find k (es.map fun e => (e.1, f e.2)) = (find k es).map f := by
  induction es with
  | nil => rfl
  | cons e rest ih =>
    obtain ⟨j, v⟩ := e
    by_cases here : j = k
    · simp [find, here]
    · simp [find, here, ih]

theorem putMap (f : α → β) (k : κ) (v : α) (es : List (κ × α)) :
    (put k v es).map (fun e => (e.1, f e.2)) = put k (f v) (es.map fun e => (e.1, f e.2)) := by
  induction es with
  | nil => rfl
  | cons e rest ih =>
    obtain ⟨j, w⟩ := e
    by_cases here : j = k
    · simp [put, here]
    · simp [put, here, ih]

theorem putFound {k : κ} {v : α} {es : List (κ × α)} (found : find k es = some v) :
    put k v es = es := by
  induction es with
  | nil => simp [find] at found
  | cons e rest ih =>
    obtain ⟨j, w⟩ := e
    by_cases here : j = k
    · have same : w = v := by simpa [find, here] using found
      simp [put, here, same]
    · have deeper : find k rest = some v := by simpa [find, here] using found
      simp [put, here, ih deeper]

theorem putAbsent {k : κ} {es : List (κ × α)} (absent : find k es = none) (v : α) :
    put k v es = es ++ [(k, v)] := by
  induction es with
  | nil => rfl
  | cons e rest ih =>
    obtain ⟨j, w⟩ := e
    by_cases here : j = k
    · simp [find, here] at absent
    · have deeper : find k rest = none := by simpa [find, here] using absent
      simp [put, here, ih deeper]

@[simp] theorem getMap (f : α → β) (t : Table κ α) (k : κ) :
    (t.map f).get? k = (t.get? k).map f := findMap f k t.entries

theorem insertMap (f : α → β) (t : Table κ α) (k : κ) (v : α) :
    (t.insert k v).map f = (t.map f).insert k (f v) := by
  simp [map, insert, putMap]

theorem insertFound {t : Table κ α} {k : κ} {v : α} (found : t.get? k = some v) :
    t.insert k v = t := by
  simp [insert, putFound found]

theorem valuesInsertAbsent {t : Table κ α} {k : κ} (absent : t.get? k = none) (v : α) :
    (t.insert k v).values = t.values ++ [v] := by
  simp [values, insert, putAbsent absent]

end ClassCompiler.Table
