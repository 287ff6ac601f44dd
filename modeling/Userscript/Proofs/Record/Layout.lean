import Mathlib.Logic.Relation
import Userscript.Header.Generate
import Userscript.Proofs.Record.Parts

/-! The layout of a record in its document: the order of the members, members
that a record does not know, and fields that are null instead of absent. None of
it can be told from the header. -/

namespace Userscript

/-- One change of layout. -/
inductive Relaid : List (String × Option Json) → List (String × Option Json) → Prop where
  | permuted {members members' : List (String × Option Json)} (h : members.Perm members') :
    Relaid members members'
  | unknown {members : List (String × Option Json)} {key : String} (v : Option Json)
      (h : key ∉ recordKeys) :
    Relaid members ((key, v) :: members)
  | null {members : List (String × Option Json)} {key : String} (h : key ∈ recordKeys)
      (habsent : key ∉ members.map Prod.fst) :
    Relaid members ((key, some .null) :: members)

namespace Document

variable {names : List String} {members members' : List (String × Option Json)}
  {parts : List (String × Json)} {key : String}

theorem exists_known?_of_perm (h : members.Perm members')
    (hknown : known? names members = some parts) :
    ∃ parts', known? names members' = some parts' ∧ parts'.Perm parts := by
  obtain ⟨hparts, hnodup⟩ := known?_eq_some.mp hknown
  have hperm : (members'.filter fun m => m.1 ∈ names).Perm (valued parts) :=
    hparts ▸ (h.filter _).symm
  obtain ⟨parts', hparts', hperm'⟩ :=
    (congrFun (congrFun (List.eq_map_comp_perm _) _) _).mpr hperm
  have hnodup' : (parts'.map Prod.fst).Nodup := (hperm'.map Prod.fst).nodup_iff.mpr hnodup
  exact ⟨parts', known?_eq_some.mpr ⟨hparts', hnodup'⟩, hperm'⟩

theorem known?_cons_of_not_mem (h : key ∉ names) (v : Option Json) :
    known? names ((key, v) :: members) = known? names members := by
  simp only [known?, List.filter_cons, decide_eq_true_eq, if_neg h]

theorem not_mem_keys_of_known? (h : known? names members = some parts)
    (habsent : key ∉ members.map Prod.fst) : key ∉ parts.map Prod.fst := by
  intro hm
  obtain ⟨p, hp, rfl⟩ := List.mem_map.mp hm
  exact habsent (List.mem_map.mpr
    ⟨_, (mem_of_filter_eq_valued (known?_eq_some.mp h).1 hp).1, rfl⟩)

theorem known?_cons_null (h : key ∈ names) (habsent : key ∉ members.map Prod.fst) :
    known? names ((key, some .null) :: members) =
      (known? names members).map ((key, Json.null) :: ·) := by
  refine Option.ext fun parts => ?_
  simp only [Option.map_eq_some_iff, known?_eq_some, List.filter_cons, h, decide_true, if_true,
    cons_eq_valued]
  constructor
  · rintro ⟨⟨rest, rfl, hrest⟩, hnodup⟩
    exact ⟨rest, ⟨hrest, (List.nodup_cons.mp hnodup).2⟩, rfl⟩
  · rintro ⟨rest, hrest, rfl⟩
    have hkey := not_mem_keys_of_known? (known?_eq_some.mpr hrest) habsent
    exact ⟨⟨rest, rfl, hrest.1⟩, List.nodup_cons.mpr ⟨hkey, hrest.2⟩⟩

end Document

theorem Json.part?_cons_null {parts : List (String × Json)} {key : String}
    (h : key ∉ parts.map Prod.fst) (k : String) :
    Json.part? ((key, .null) :: parts) k = Json.part? parts k := by
  unfold Json.part?
  by_cases hk : k = key
  · subst hk
    rw [lookup_eq_none_iff_not_mem.mpr h]
    simp
  · have hb : (k == key) = false := by simpa using hk
    simp only [List.lookup_cons, hb]

namespace Record

variable {members members' : List (String × Option Json)}

theorem ofDocument?_of_perm (h : members.Perm members') :
    ofDocument? (.object members) = ofDocument? (.object members') := by
  rw [ofDocument?_object, ofDocument?_object]
  cases hknown : Document.known? recordKeys members with
  | none =>
    cases hknown' : Document.known? recordKeys members' with
    | none => rfl
    | some parts' =>
      obtain ⟨parts, hparts, _⟩ := Document.exists_known?_of_perm h.symm hknown'
      rw [hknown] at hparts
      cases hparts
  | some parts =>
    obtain ⟨parts', hknown', hperm⟩ := Document.exists_known?_of_perm h hknown
    rw [hknown']
    refine ofParts?_congr fun key => ?_
    rw [Json.part?, Json.part?, lookup_of_perm hperm (Document.known?_eq_some.mp hknown').2]

theorem ofDocument?_of_relaid (h : Relaid members members') :
    ofDocument? (.object members) = ofDocument? (.object members') := by
  cases h with
  | permuted h => exact ofDocument?_of_perm h
  | unknown v h =>
    rw [ofDocument?_object, ofDocument?_object, Document.known?_cons_of_not_mem h]
  | null h habsent =>
    rw [ofDocument?_object, ofDocument?_object, Document.known?_cons_null h habsent]
    cases hknown : Document.known? recordKeys members with
    | none => rfl
    | some parts =>
      have hkey := Document.not_mem_keys_of_known? hknown habsent
      exact ofParts?_congr fun k => (Json.part?_cons_null hkey k).symm

end Record

/-- Documents that differ in their layout only hold the same record or none, and
the same header is made from them, with the same errors, warnings and calls. -/
theorem draftHeader_of_layout {members members' : List (String × Option Json)}
    (h : Relation.EqvGen Relaid members members') :
    Record.ofDocument? (.object members) = Record.ofDocument? (.object members') ∧
      ∀ text text', Document.read text = some (.object members) →
        Document.read text' = some (.object members') →
          ∀ options collaborators,
            (Record.ofText? text).map (draftHeader options collaborators) =
                (Record.ofText? text').map (draftHeader options collaborators) ∧
              (Record.ofText? text).map (headerText options collaborators) =
                (Record.ofText? text').map (headerText options collaborators) := by
  have hrecord : Record.ofDocument? (.object members) = Record.ofDocument? (.object members') := by
    induction h with
    | rel _ _ h => exact Record.ofDocument?_of_relaid h
    | refl _ => rfl
    | symm _ _ _ ih => exact ih.symm
    | trans _ _ _ _ _ ih ih' => exact ih.trans ih'
  refine ⟨hrecord, fun text text' hread hread' options collaborators => ?_⟩
  have htext : Record.ofText? text = Record.ofText? text' := by
    rw [Record.ofText?, Record.ofText?, hread, hread']
    exact hrecord
  rw [htext]
  exact ⟨rfl, rfl⟩

def shortMembers : List (String × Option Json) :=
  [("name", some (.string "a")), ("version", some (.string "1")), ("author", some (.string "me"))]

/-- The same fields backwards, with a null and a member that has no value. -/
def reversedMembers : List (String × Option Json) :=
  [("author", some (.string "me")), ("version", some (.string "1")), ("name", some (.string "a")),
    ("license", some .null), ("zz", none)]

def shortText : String :=
  "\x7b\"name\":\"a\",\"version\":\"1\",\"author\":\"me\"\x7d"

def reversedText : String :=
  "\x7b\"author\":\"me\",\"version\":\"1\",\"name\":\"a\"," ++
    "\"license\":null,\"zz\":\"\\ud800\"\x7d"

theorem read_shortText : Document.read shortText = some (.object shortMembers) := by
  cbv

theorem read_reversedText : Document.read reversedText = some (.object reversedMembers) := by
  cbv

theorem eqvGen_reversedMembers : Relation.EqvGen Relaid shortMembers reversedMembers := by
  have hnull : Relaid shortMembers (("license", some .null) :: shortMembers) :=
    .null (by decide) (by decide)
  have hunknown : Relaid _ (("zz", none) :: ("license", some .null) :: shortMembers) :=
    .unknown none (by decide)
  have hreversed : Relaid (("zz", none) :: ("license", some .null) :: shortMembers)
      reversedMembers := .permuted (List.reverse_perm reversedMembers)
  exact ((Relation.EqvGen.rel _ _ hnull).trans _ _ _ (.rel _ _ hunknown)).trans _ _ _
    (.rel _ _ hreversed)

theorem draftHeader_of_layout_reversed :
    Relation.EqvGen Relaid shortMembers reversedMembers ∧
      Record.ofDocument? (.object reversedMembers) = some (Record.ofRequired "a" "1" "me") ∧
      (Record.ofText? shortText).map (headerText {} ⟨LocaleRule.bestFit, fun _ _ => .ok "", .ok "/"⟩) =
        (Record.ofText? reversedText).map
          (headerText {} ⟨LocaleRule.bestFit, fun _ _ => .ok "", .ok "/"⟩) :=
  have h := draftHeader_of_layout eqvGen_reversedMembers
  ⟨eqvGen_reversedMembers, h.1.symm.trans rfl,
    (h.2 _ _ read_shortText read_reversedText _ _).2⟩

end Userscript
