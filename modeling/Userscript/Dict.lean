/-! Dictionaries that keep the order in which their keys were first entered. A
key that is entered again keeps its place and takes the later value. -/

namespace Userscript

/-- Entries with distinct keys, in order. -/
structure Dict (ν : Type) where
  entries : List (String × ν)
  distinct : (entries.map Prod.fst).Nodup

variable {ν : Type}

/-- Gives a key its value, in its place or at the end. -/
def insertEntry (key : String) (v : ν) : List (String × ν) → List (String × ν)
  | [] => [(key, v)]
  | e :: es => if e.1 = key then (key, v) :: es else e :: insertEntry key v es

theorem keys_insertEntry (key : String) (v : ν) (es : List (String × ν)) :
    (insertEntry key v es).map Prod.fst =
      if key ∈ es.map Prod.fst then es.map Prod.fst else es.map Prod.fst ++ [key] := by
  induction es with
  | nil => simp [insertEntry]
  | cons e es ih =>
    by_cases h : e.1 = key
    · simp [insertEntry, h]
    · have h' : ¬ key = e.1 := fun he => h he.symm
      simp only [insertEntry, h, if_false, List.map_cons, ih, List.mem_cons, h', false_or]
      split <;> simp

namespace Dict

def empty : Dict ν := ⟨[], by simp⟩

def keys (d : Dict ν) : List String := d.entries.map Prod.fst

def insert (d : Dict ν) (key : String) (v : ν) : Dict ν :=
  ⟨insertEntry key v d.entries, by
    rw [keys_insertEntry]
    split
    · exact d.distinct
    · next h =>
      rw [List.nodup_append]
      refine ⟨d.distinct, by simp, ?_⟩
      intro a ha b hb hab
      simp only [List.mem_singleton] at hb
      exact h (hb ▸ hab ▸ ha)⟩

def ofList (es : List (String × ν)) : Dict ν :=
  es.foldl (fun d e => d.insert e.1 e.2) empty

def find? (d : Dict ν) (key : String) : Option ν :=
  (d.entries.find? (·.1 = key)).map Prod.snd

def erase (d : Dict ν) (key : String) : Dict ν :=
  ⟨d.entries.filter (·.1 ≠ key), d.distinct.sublist (List.filter_sublist.map _)⟩

theorem not_mem_keys_erase (d : Dict ν) (key : String) : key ∉ (d.erase key).keys := by
  simp [keys, erase]

theorem keys_insert (d : Dict ν) (key : String) (v : ν) :
    (d.insert key v).keys = if key ∈ d.keys then d.keys else d.keys ++ [key] :=
  keys_insertEntry key v d.entries

theorem mem_keys_insert {d : Dict ν} {key k : String} {v : ν} :
    k ∈ (d.insert key v).keys ↔ k ∈ d.keys ∨ k = key := by
  rw [keys_insert]
  split
  · next h => exact ⟨Or.inl, fun hk => hk.elim id (fun he => he ▸ h)⟩
  · simp

end Dict

end Userscript
