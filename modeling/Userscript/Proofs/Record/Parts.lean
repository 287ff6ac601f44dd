import Mathlib.Data.List.Perm.Basic
import Userscript.Record.Decode

/-! The parts of an object. A record only depends on what stands under each of
its keys, where null counts as nothing. -/

namespace Userscript

section Lookup

variable {ν : Type} {es es' : List (String × ν)}

theorem lookup_eq_some_iff_mem (h : (es.map Prod.fst).Nodup) {key : String} {v : ν} :
    es.lookup key = some v ↔ (key, v) ∈ es := by
  induction es with
  | nil => simp
  | cons e es ih =>
    obtain ⟨k, w⟩ := e
    rw [List.map_cons, List.nodup_cons] at h
    rw [List.mem_cons, Prod.mk.injEq]
    by_cases hk : key = k
    · subst hk
      have hnot : (key, v) ∉ es := fun hm => h.1 (List.mem_map.mpr ⟨_, hm, rfl⟩)
      simp [hnot, eq_comm]
    · have hb : (key == k) = false := by simpa using hk
      simp only [List.lookup_cons, hb, ih h.2, hk, false_and, false_or]

theorem lookup_eq_none_iff_not_mem {key : String} :
    es.lookup key = none ↔ key ∉ es.map Prod.fst := by
  simp only [List.lookup_eq_none_iff, bne_iff_ne, List.mem_map, not_exists, not_and]
  exact ⟨fun h e hm he => h e hm he.symm, fun h e hm he => h e hm he.symm⟩

theorem lookup_of_perm (h : es.Perm es') (hnodup : (es.map Prod.fst).Nodup) (key : String) :
    es.lookup key = es'.lookup key := by
  have hnodup' : (es'.map Prod.fst).Nodup := (h.map Prod.fst).nodup_iff.mp hnodup
  refine Option.ext fun v => ?_
  rw [lookup_eq_some_iff_mem hnodup, lookup_eq_some_iff_mem hnodup', h.mem_iff]

end Lookup

namespace Json

/-- What stands under a key; nothing if that is null. -/
def part? (parts : List (String × Json)) (key : String) : Option Json :=
  match parts.lookup key with
  | some null => none
  | found => found

theorem optional?_eq {α : Type} (item : Json → Option α) (key : String)
    (parts : List (String × Json)) :
    optional? item key parts = (part? parts key).elim (some none) fun v => (item v).map some := by
  unfold optional? part?
  cases parts.lookup key with
  | none => rfl
  | some v => cases v <;> rfl

theorem known?_of_forall_mem {names : List String} {parts : List (String × Json)}
    (h : ∀ p ∈ parts, p.1 ∈ names) :
    known? names parts = if (parts.map Prod.fst).Nodup then some parts else none := by
  have hall : parts.filter (fun p => p.1 ∈ names) = parts :=
    List.filter_eq_self.mpr fun p hp => decide_eq_true (h p hp)
  simp only [known?, hall]

end Json

theorem Record.ofParts?_congr {parts parts' : List (String × Json)}
    (h : ∀ key, Json.part? parts key = Json.part? parts' key) :
    Record.ofParts? parts = Record.ofParts? parts' := by
  have hpart : ∀ {α : Type} (item : Json → Option α) (key : String),
      Json.optional? item key parts = Json.optional? item key parts' := fun item key => by
    rw [Json.optional?_eq, Json.optional?_eq, h]
  unfold Record.ofParts?
  simp only [hpart]

namespace Document

def valued (parts : List (String × Json)) : List (String × Option Json) :=
  parts.map fun p => (p.1, some p.2)

variable {names : List String} {members : List (String × Option Json)}
  {parts : List (String × Json)}

theorem cons_eq_valued {key : String} {v : Json} :
    (key, some v) :: members = valued parts ↔
      ∃ rest, parts = (key, v) :: rest ∧ members = valued rest := by
  constructor
  · intro h
    cases parts with
    | nil => cases h
    | cons p rest =>
      simp only [valued, List.map_cons, List.cons.injEq, Prod.mk.injEq, Option.some.injEq] at h
      exact ⟨rest, by rw [h.1.1, h.1.2], h.2⟩
  · rintro ⟨rest, rfl, rfl⟩
    rfl

theorem mem_of_filter_eq_valued (h : members.filter (fun m => m.1 ∈ names) = valued parts)
    {p : String × Json} (hp : p ∈ parts) : (p.1, some p.2) ∈ members ∧ p.1 ∈ names := by
  have hm : (p.1, some p.2) ∈ valued parts := List.mem_map.mpr ⟨p, hp, rfl⟩
  rw [← h, List.mem_filter] at hm
  exact ⟨hm.1, of_decide_eq_true hm.2⟩

theorem mapM_value_eq_some :
    (members.mapM fun (m : String × Option Json) => m.2.map fun v => (m.1, v)) = some parts ↔
      members = valued parts := by
  induction members generalizing parts with
  | nil => cases parts <;> simp [valued]
  | cons m members ih =>
    obtain ⟨key, _ | v⟩ := m
    · cases parts <;> simp [valued]
    · simp only [List.mapM_cons, Option.map_some, Option.bind_eq_bind, Option.bind_some,
        Option.bind_eq_some_iff, ih, cons_eq_valued]
      constructor
      · rintro ⟨rest, rfl, ⟨⟩⟩
        exact ⟨rest, rfl, rfl⟩
      · rintro ⟨rest, rfl, rfl⟩
        exact ⟨rest, rfl, rfl⟩

theorem known?_eq_some :
    known? names members = some parts ↔
      members.filter (fun m => m.1 ∈ names) = valued parts ∧ (parts.map Prod.fst).Nodup := by
  rw [known?, Option.bind_eq_some_iff]
  simp only [mapM_value_eq_some]
  constructor
  · rintro ⟨ps, hps, h⟩
    rw [Json.known?_of_forall_mem fun p hp => (mem_of_filter_eq_valued hps hp).2] at h
    split at h
    · next hnodup =>
      obtain rfl := Option.some.inj h
      exact ⟨hps, hnodup⟩
    · cases h
  · rintro ⟨hps, hnodup⟩
    refine ⟨parts, hps, ?_⟩
    rw [Json.known?_of_forall_mem fun p hp => (mem_of_filter_eq_valued hps hp).2, if_pos hnodup]

end Document

theorem Record.ofDocument?_object (members : List (String × Option Json)) :
    Record.ofDocument? (.object members) =
      (Document.known? recordKeys members).bind Record.ofParts? := rfl

end Userscript
