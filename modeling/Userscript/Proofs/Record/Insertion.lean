import Mathlib.Data.List.Induction
import Mathlib.Data.List.Nodup
import Userscript.Record.Translations

/-! Dictionaries and translations by insertion. A key stays where it was first
entered and has its last value. Translations that are built text by text are those
that the dictionary of the same texts converts to. -/

namespace Userscript

section Entries

variable {ν : Type}

theorem insertEntry_of_not_mem {key : String} (v : ν) {es : List (String × ν)}
    (h : key ∉ es.map Prod.fst) : insertEntry key v es = es ++ [(key, v)] := by
  induction es with
  | nil => rfl
  | cons e es ih =>
    rw [List.map_cons, List.mem_cons, not_or] at h
    rw [insertEntry, if_neg fun he => h.1 he.symm, ih h.2]
    rfl

theorem filter_insertEntry_self (key : String) (v : ν) (es : List (String × ν)) :
    (insertEntry key v es).filter (·.1 ≠ key) = es.filter (·.1 ≠ key) := by
  induction es with
  | nil => simp [insertEntry]
  | cons e es ih =>
    rw [insertEntry]
    split
    · next h => simp [h]
    · next h => simp only [ne_eq, h, not_false_eq_true, decide_true, List.filter_cons_of_pos, ih]

theorem filter_insertEntry_of_ne {key other : String} (hne : key ≠ other) (v : ν)
    (es : List (String × ν)) :
    (insertEntry key v es).filter (·.1 ≠ other) = insertEntry key v (es.filter (·.1 ≠ other)) := by
  induction es with
  | nil => simp [insertEntry, hne]
  | cons e es ih =>
    obtain ⟨k, w⟩ := e
    by_cases hkey : k = key
    · simp [insertEntry, hkey, hne]
    · by_cases hother : k = other
      · subst hother
        simpa [insertEntry, hkey] using ih
      · simpa [insertEntry, hkey, hother] using ih

theorem find?_insertEntry (key : String) (v : ν) (es : List (String × ν)) (k : String) :
    (insertEntry key v es).find? (·.1 = k) =
      if k = key then some (key, v) else es.find? (·.1 = k) := by
  induction es with
  | nil => by_cases h : k = key <;> simp [insertEntry, h, eq_comm]
  | cons e es ih =>
    obtain ⟨k', w⟩ := e
    by_cases hkey : k' = key
    · subst hkey
      by_cases h : k = k'
      · simp [insertEntry, h]
      · simp [insertEntry, h, Ne.symm h]
    · by_cases h : k' = k
      · subst h
        simp [insertEntry, hkey]
      · simp [insertEntry, hkey, h, ih]

end Entries

namespace Dict

variable {ν : Type} (d : Dict ν) (key : String) (v : ν)

theorem eq_of_entries {d d' : Dict ν} (h : d.entries = d'.entries) : d = d' := by
  cases d
  cases d'
  cases h
  rfl

theorem find?_insert (k : String) :
    (d.insert key v).find? k = if k = key then some v else d.find? k := by
  rw [find?, insert, find?_insertEntry]
  split <;> rfl

theorem erase_insert_self : (d.insert key v).erase key = d.erase key :=
  eq_of_entries (filter_insertEntry_self key v d.entries)

theorem erase_insert_of_ne {key other : String} (hne : key ≠ other) :
    (d.insert key v).erase other = (d.erase other).insert key v :=
  eq_of_entries (filter_insertEntry_of_ne hne v d.entries)

theorem find?_erase_of_ne {key other : String} (hne : key ≠ other) :
    (d.erase other).find? key = d.find? key := by
  rw [find?, find?, erase, List.find?_filter]
  congr 2
  funext e
  by_cases h : e.1 = key <;> simp [h, hne]

theorem keys_erase : (d.erase key).keys = d.keys.filter (· ≠ key) := by
  rw [keys, keys, erase, List.filter_map]
  rfl

theorem find?_eq_none_iff : d.find? key = none ↔ key ∉ d.keys := by
  simp only [find?, keys, Option.map_eq_none_iff, List.find?_eq_none, decide_eq_true_eq,
    List.mem_map, not_exists, not_and]

theorem entries_foldl_insert {es : List (String × ν)} {d : Dict ν}
    (h : ((d.entries ++ es).map Prod.fst).Nodup) :
    (es.foldl (fun d e => d.insert e.1 e.2) d).entries = d.entries ++ es := by
  induction es generalizing d with
  | nil => simp
  | cons e es ih =>
    have hkey : e.1 ∉ d.entries.map Prod.fst := by
      simp only [List.map_append, List.map_cons, List.nodup_append, List.mem_cons] at h
      exact fun hm => h.2.2 _ hm _ (.inl rfl) rfl
    have hinsert : (d.insert e.1 e.2).entries = d.entries ++ [e] := insertEntry_of_not_mem e.2 hkey
    rw [List.foldl_cons, ih (by rwa [hinsert, List.append_assoc]), hinsert, List.append_assoc]
    rfl

theorem entries_ofList {es : List (String × ν)} (h : (es.map Prod.fst).Nodup) :
    (ofList es).entries = es :=
  entries_foldl_insert h

theorem ofList_append_singleton (es : List (String × ν)) (e : String × ν) :
    ofList (es ++ [e]) = (ofList es).insert e.1 e.2 := by
  rw [ofList, List.foldl_append]
  rfl

/-- The keys stand in the order in which they were first entered. -/
theorem keys_ofList (es : List (String × ν)) :
    (ofList es).keys = (es.map Prod.fst).eraseDups := by
  induction es using List.reverseRecOn with
  | nil => rfl
  | append_singleton es e ih =>
    rw [ofList_append_singleton, keys_insert, ih, List.map_append, List.map_singleton,
      List.eraseDups_append, List.cons_removeAll, List.nil_removeAll]
    by_cases hm : e.1 ∈ es.map Prod.fst
    · rw [if_pos (List.mem_eraseDups.mpr hm), if_neg (by simpa using hm)]
      exact (List.append_nil _).symm
    · rw [if_neg fun h => hm (List.mem_eraseDups.mp h), if_pos (by simpa using hm)]
      rfl

/-- Each key has the value that was entered last. -/
theorem find?_ofList (es : List (String × ν)) (key : String) :
    (ofList es).find? key = es.reverse.lookup key := by
  induction es using List.reverseRecOn with
  | nil => rfl
  | append_singleton es e ih =>
    rw [ofList_append_singleton, find?_insert, ih, List.reverse_append, List.reverse_singleton,
      List.singleton_append, List.lookup_cons]
    by_cases h : key = e.1
    · rw [if_pos h, beq_iff_eq.mpr h]
    · rw [if_neg h, beq_eq_false_iff_ne.mpr h]

section Split

variable {d : Dict ν} {key : String} {v : ν} {front back : List (String × ν)}

theorem not_mem_of_split (h : d.entries = front ++ (key, v) :: back) :
    key ∉ front.map Prod.fst ∧ key ∉ back.map Prod.fst := by
  have hdistinct := d.distinct
  rw [h, List.map_append, List.map_cons, List.nodup_middle, List.nodup_cons, List.mem_append,
    not_or] at hdistinct
  exact hdistinct.1

theorem find?_of_split (h : d.entries = front ++ (key, v) :: back) : d.find? key = some v := by
  have hfront : front.find? (·.1 = key) = none := by
    rw [List.find?_eq_none]
    intro e he hkey
    exact (not_mem_of_split h).1 (List.mem_map.mpr ⟨e, he, of_decide_eq_true hkey⟩)
  rw [find?, h, List.find?_append, hfront]
  simp

theorem entries_erase_of_split (h : d.entries = front ++ (key, v) :: back) :
    (d.erase key).entries = front ++ back := by
  have hkept : ∀ es : List (String × ν), key ∉ es.map Prod.fst → es.filter (·.1 ≠ key) = es := by
    intro es hes
    refine List.filter_eq_self.mpr fun e he => decide_eq_true fun hkey => ?_
    exact hes (List.mem_map.mpr ⟨e, he, hkey⟩)
  obtain ⟨hfront, hback⟩ := not_mem_of_split h
  change d.entries.filter (·.1 ≠ key) = front ++ back
  rw [h, List.filter_append, List.filter_cons_of_neg (by simp), hkept front hfront,
    hkept back hback]

end Split

end Dict

namespace Translations

variable {d : Dict String} {t : Translations}

theorem ofDict?_eq_some :
    ofDict? d = some t ↔ d.find? baseKey = some t.base ∧ d.erase baseKey = t.locales := by
  obtain ⟨base, locales, hbase⟩ := t
  rw [ofDict?, Option.map_eq_some_iff]
  simp only [mk.injEq]
  exact ⟨fun ⟨_, hfind, heq, herase⟩ => ⟨heq ▸ hfind, herase⟩,
    fun ⟨hfind, herase⟩ => ⟨base, hfind, rfl, herase⟩⟩

theorem ofDict?_eq_none : ofDict? d = none ↔ baseKey ∉ d.keys := by
  rw [ofDict?, Option.map_eq_none_iff, Dict.find?_eq_none_iff]

theorem add_baseKey (text : String) : t.add baseKey text = { t with base := text } :=
  dif_pos rfl

theorem base_add_of_ne {key : String} (hne : key ≠ baseKey) (text : String) :
    (t.add key text).base = t.base := by
  rw [add, dif_neg hne]

theorem locales_add_of_ne {key : String} (hne : key ≠ baseKey) (text : String) :
    (t.add key text).locales = t.locales.insert key text := by
  rw [add, dif_neg hne]

/-- Entering a text before the conversion is entering it behind it. -/
theorem ofDict?_insert (h : ofDict? d = some t) (key text : String) :
    ofDict? (d.insert key text) = some (t.add key text) := by
  obtain ⟨hbase, hlocales⟩ := ofDict?_eq_some.mp h
  rw [ofDict?_eq_some, Dict.find?_insert]
  by_cases hkey : key = baseKey
  · subst hkey
    rw [add_baseKey, if_pos rfl, Dict.erase_insert_self]
    exact ⟨rfl, hlocales⟩
  · rw [base_add_of_ne hkey, locales_add_of_ne hkey, if_neg (Ne.symm hkey),
      Dict.erase_insert_of_ne _ _ hkey, hlocales]
    exact ⟨hbase, rfl⟩

def addAll (t : Translations) (es : List (String × String)) : Translations :=
  es.foldl (fun t e => t.add e.1 e.2) t

theorem ofDict?_foldl_insert (h : ofDict? d = some t) (es : List (String × String)) :
    ofDict? (es.foldl (fun d e => d.insert e.1 e.2) d) = some (t.addAll es) := by
  induction es generalizing d t with
  | nil => exact h
  | cons e es ih => exact ih (ofDict?_insert h e.1 e.2)

theorem ofDict?_ofList_cons_base (base : String) (es : List (String × String)) :
    ofDict? (Dict.ofList ((baseKey, base) :: es)) = some ((ofBase base).addAll es) :=
  ofDict?_foldl_insert rfl es

/-- What comes of entering texts one after another. The base text is the last one for
the key `@`. The other keys stand where they first came, each with its last text. -/
structure Gathers (es : List (String × String)) (t : Translations) : Prop where
  base : es.reverse.lookup baseKey = some t.base
  keys : t.locales.keys = (es.map Prod.fst).eraseDups.filter (· ≠ baseKey)
  texts : ∀ key, key ≠ baseKey → t.locales.find? key = es.reverse.lookup key
  noBase : baseKey ∉ t.locales.keys
  distinct : t.locales.keys.Nodup

theorem gathers_of_ofDict? {es : List (String × String)}
    (h : ofDict? (Dict.ofList es) = some t) : t.Gathers es := by
  obtain ⟨hbase, hlocales⟩ := ofDict?_eq_some.mp h
  refine ⟨?_, ?_, fun key hkey => ?_, t.noBase, t.locales.distinct⟩
  · rw [← Dict.find?_ofList, hbase]
  · rw [← hlocales, Dict.keys_erase, Dict.keys_ofList]
  · rw [← hlocales, Dict.find?_erase_of_ne _ hkey, Dict.find?_ofList]

theorem ofDict?_of_moved {d' : Dict String} {base : String}
    {front back front' back' : List (String × String)}
    (h : d.entries = front ++ (baseKey, base) :: back)
    (h' : d'.entries = front' ++ (baseKey, base) :: back')
    (hrest : front' ++ back' = front ++ back) : ofDict? d' = ofDict? d := by
  have herase : d'.erase baseKey = d.erase baseKey := Dict.eq_of_entries (by
    rw [Dict.entries_erase_of_split h, Dict.entries_erase_of_split h', hrest])
  refine Option.ext fun t => ?_
  rw [ofDict?_eq_some, ofDict?_eq_some, Dict.find?_of_split h, Dict.find?_of_split h', herase]

end Translations

/-- Building translations text by text gives what the dictionary of the same texts
converts to, wherever the text for `@` stands in it. Either way the texts entered are
gathered, and a conversion fails exactly if there is none for `@`. -/
theorem translations_added_eq_converted :
    (∀ (base : String) (es : List (String × String)),
      Translations.ofDict? (Dict.ofList ((baseKey, base) :: es)) =
          some ((Translations.ofBase base).addAll es) ∧
        ((Translations.ofBase base).addAll es).Gathers ((baseKey, base) :: es)) ∧
    (∀ (d d' : Dict String) (base : String) (front back front' back' : List (String × String)),
      d.entries = front ++ (baseKey, base) :: back →
      d'.entries = front' ++ (baseKey, base) :: back' →
      front' ++ back' = front ++ back → Translations.ofDict? d' = Translations.ofDict? d) ∧
    (∀ (es : List (String × String)) (t : Translations),
      Translations.ofDict? (Dict.ofList es) = some t → t.Gathers es) ∧
    ∀ d : Dict String, Translations.ofDict? d = none ↔ baseKey ∉ d.keys := by
  refine ⟨fun base es => ?_, ?_, ?_, fun d => Translations.ofDict?_eq_none⟩
  · have hconverted := Translations.ofDict?_ofList_cons_base base es
    exact ⟨hconverted, Translations.gathers_of_ofDict? hconverted⟩
  · intro d d' base front back front' back' h h' hrest
    exact Translations.ofDict?_of_moved h h' hrest
  · intro es t h
    exact Translations.gathers_of_ofDict? h

/-- The text for `@` stands last, and French was entered twice. -/
def baseLastTexts : List (String × String) :=
  [("fr", "outil"), ("de", "Werkzeug"), ("fr", "Outil"), ("@", "Tool")]

def baseFirst : Dict String :=
  Dict.ofList [("@", "Tool"), ("fr", "Outil"), ("de", "Werkzeug")]

theorem translations_added_eq_converted_of_base_last :
    Translations.ofDict? (Dict.ofList baseLastTexts) = Translations.ofDict? baseFirst ∧
      Translations.ofDict? baseFirst = some ((Translations.ofBase "Tool").addAll
        [("fr", "Outil"), ("de", "Werkzeug")]) ∧
      ((Translations.ofBase "Tool").addAll [("fr", "Outil"), ("de", "Werkzeug")]).Gathers
        baseLastTexts := by
  obtain ⟨hadded, hmoved, hgathers, _⟩ := translations_added_eq_converted
  have hbase := (hadded "Tool" [("fr", "Outil"), ("de", "Werkzeug")]).1
  have hlast : Translations.ofDict? (Dict.ofList baseLastTexts) =
      Translations.ofDict? baseFirst :=
    hmoved baseFirst (Dict.ofList baseLastTexts) "Tool" [] [("fr", "Outil"), ("de", "Werkzeug")]
      [("fr", "Outil"), ("de", "Werkzeug")] [] (by decide) (by decide) rfl
  exact ⟨hlast, hbase, hgathers baseLastTexts _ (hlast.trans hbase)⟩

end Userscript
