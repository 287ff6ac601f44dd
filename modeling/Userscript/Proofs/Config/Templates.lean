import Userscript.Config.Basic
import Userscript.Proofs.Template.Filling
import Userscript.Proofs.Text.Runs

/-! Which templates a configuration may have, and which complaint is made about
one that it may not have. A check goes through its requirements in order, and the
first that is not met decides. -/

namespace Userscript

open String (utf8Len)

/-- What must be so, and what is said where it is not. -/
structure Requirement where
  met : Prop
  complaint : String

inductive FirstUnmet : List Requirement → Requirement → Prop where
  | here {q : Requirement} {rest : List Requirement} (h : ¬ q.met) : FirstUnmet (q :: rest) q
  | later {first q : Requirement} {rest : List Requirement} (h : first.met)
      (hrest : FirstUnmet rest q) : FirstUnmet (first :: rest) q

/-- A check that complains about the first requirement that is not met. -/
structure Enforces (check : Except ConfigProblem Unit) (requirements : List Requirement) :
    Prop where
  accepts : (∀ q ∈ requirements, q.met) → check = .ok ()
  refuses : ∀ q, FirstUnmet requirements q → ∃ p, check = .error p ∧ p.message = q.complaint

section Requirements

variable {qs rs : List Requirement} {q r : Requirement} {check : Except ConfigProblem Unit}

theorem exists_firstUnmet (h : ¬ ∀ r ∈ qs, r.met) : ∃ q, FirstUnmet qs q := by
  induction qs with
  | nil => simp at h
  | cons first rest ih =>
    by_cases hfirst : first.met
    · obtain ⟨q, hq⟩ := ih fun hrest => h (by simpa [hfirst] using hrest)
      exact ⟨q, .later hfirst hq⟩
    · exact ⟨first, .here hfirst⟩

theorem FirstUnmet.mem (h : FirstUnmet qs q) : q ∈ qs := by
  induction h with
  | here _ => simp
  | later _ _ ih => simp [ih]

theorem firstUnmet_append :
    FirstUnmet (qs ++ rs) q ↔ FirstUnmet qs q ∨ (∀ r ∈ qs, r.met) ∧ FirstUnmet rs q := by
  constructor
  · intro h
    induction qs with
    | nil => exact .inr ⟨by simp, h⟩
    | cons first rest ih =>
      cases h with
      | here h => exact .inl (.here h)
      | later hfirst hrest =>
        rcases ih hrest with hrest | ⟨hall, hrs⟩
        · exact .inl (.later hfirst hrest)
        · exact .inr ⟨by simpa [hfirst] using hall, hrs⟩
  · rintro (h | ⟨hall, hrs⟩)
    · induction h with
      | here h => exact .here h
      | later hfirst _ ih => exact .later hfirst ih
    · induction qs with
      | nil => exact hrs
      | cons first rest ih =>
        exact .later (hall first (by simp)) (ih fun r hr => hall r (by simp [hr]))

theorem Enforces.eq_ok_iff (h : Enforces check qs) :
    check = .ok () ↔ ∀ q ∈ qs, q.met := by
  refine ⟨fun hok => ?_, h.accepts⟩
  by_contra hnot
  obtain ⟨q, hq⟩ := exists_firstUnmet hnot
  obtain ⟨p, hp, _⟩ := h.refuses q hq
  rw [hok] at hp
  cases hp

theorem Enforces.exists_firstUnmet {p : ConfigProblem} (h : Enforces check qs)
    (hp : check = .error p) : ∃ q, FirstUnmet qs q ∧ q.complaint = p.message := by
  have hnot : ¬ ∀ q ∈ qs, q.met := fun hall => by
    rw [h.accepts hall] at hp
    cases hp
  obtain ⟨q, hq⟩ := Userscript.exists_firstUnmet hnot
  obtain ⟨p', hp', hmessage⟩ := h.refuses q hq
  rw [hp] at hp'
  obtain rfl := Except.error.inj hp'
  exact ⟨q, hq, hmessage.symm⟩

theorem Enforces.error_iff (h : Enforces check qs) (complaint : String) :
    (∃ p, check = .error p ∧ p.message = complaint) ↔
      ∃ q, FirstUnmet qs q ∧ q.complaint = complaint := by
  constructor
  · rintro ⟨p, hp, rfl⟩
    exact h.exists_firstUnmet hp
  · rintro ⟨q, hq, rfl⟩
    exact h.refuses q hq

theorem enforces_nil : Enforces (.ok ()) [] where
  accepts _ := rfl
  refuses _ h := nomatch h

theorem Enforces.guard {c : Prop} [Decidable c] {p : ConfigProblem} (h : Enforces check qs)
    (hc : ¬ c ↔ q.met) (hmessage : p.message = q.complaint) :
    Enforces (if c then .error p else check) (q :: qs) where
  accepts hall := by
    rw [if_neg (hc.mpr (hall q (by simp)))]
    exact h.accepts fun r hr => hall r (by simp [hr])
  refuses r hr := by
    cases hr with
    | here hnot => exact ⟨p, if_pos (not_not.mp (mt hc.mp hnot)), hmessage⟩
    | later hmet hrest =>
      rw [if_neg (hc.mpr hmet)]
      exact h.refuses r hrest

theorem Enforces.seq {next : Except ConfigProblem Unit} (h : Enforces check qs)
    (hnext : Enforces next rs) : Enforces (check >>= fun _ => next) (qs ++ rs) where
  accepts hall := by
    rw [h.accepts fun r hr => hall r (by simp [hr])]
    exact hnext.accepts fun r hr => hall r (by simp [hr])
  refuses r hr := by
    rcases firstUnmet_append.mp hr with hr | ⟨hall, hr⟩
    · obtain ⟨p, hp, hmessage⟩ := h.refuses r hr
      exact ⟨p, by rw [hp]; rfl, hmessage⟩
    · rw [h.accepts hall]
      exact hnext.refuses r hr

/-- A requirement that those before it entail is never the one that decides. -/
theorem Enforces.drop_entailed (h : Enforces check (qs ++ q :: rs))
    (hq : (∀ r ∈ qs, r.met) → q.met) : Enforces check (qs ++ rs) where
  accepts hall := by
    have hqs : ∀ r ∈ qs, r.met := fun r hr => hall r (by simp [hr])
    refine h.accepts fun r hr => ?_
    rcases List.mem_append.mp hr with hr | hr
    · exact hqs r hr
    · rcases List.mem_cons.mp hr with rfl | hr
      · exact hq hqs
      · exact hall r (by simp [hr])
  refuses r hr := by
    refine h.refuses r (firstUnmet_append.mpr ?_)
    exact (firstUnmet_append.mp hr).imp_right fun ⟨hall, hr⟩ => ⟨hall, .later (hq hall) hr⟩

end Requirements

theorem enforces_forM {check : String → Except ConfigProblem Unit}
    {requirements : String → List Requirement}
    (h : ∀ text, Enforces (check text) (requirements text)) (text : Option String) :
    Enforces (text.forM check) (text.elim [] requirements) := by
  cases text with
  | none => exact enforces_nil
  | some text => exact h text

def templateRequirements (field template : String) : List Requirement := [
  ⟨∃ c ∈ template.toList, isBlank c = false, field ++ " must be non-empty"⟩,
  ⟨template.utf8ByteSize ≤ 2048, field ++ " exceeds max length"⟩,
  ⟨'\n' ∉ template.toList ∧ '\x0d' ∉ template.toList, field ++ " must be a single line"⟩,
  ⟨placeholder <:+: template.toList, field ++ " must contain \x7bid\x7d"⟩]

/-- The slashes of a path leave no run that is too long. -/
def ShortRuns (path : String) : Prop := ∀ run, IsRun '/' path.toList run → utf8Len run ≤ 255

def segmentRequirement (field path : String) : Requirement :=
  ⟨ShortRuns path, field ++ " has a segment longer than 255 bytes"⟩

def pathRequirements (field path : String) : List Requirement := [
  ⟨path.utf8ByteSize ≤ 4096, field ++ " is longer than 4096 bytes"⟩, segmentRequirement field path]

/-- A piece of a path that is no component, and the root, have one byte at most. -/
theorem exists_component_iff_exists_piece (path : String) {n : Nat} (hn : 1 ≤ n) :
    (∃ component ∈ pathComponents path, n < component.utf8ByteSize) ↔
      ∃ piece ∈ pathPieces path, n < piece.utf8ByteSize := by
  have hidle : ∀ piece : String, isIdlePiece piece = true → piece.utf8ByteSize ≤ 1 := by
    intro piece h
    simp only [isIdlePiece, Bool.or_eq_true, decide_eq_true_eq] at h
    rcases h with rfl | rfl <;> decide
  by_cases hpath : path = ""
  · subst hpath
    have hpieces : pathPieces "" = [""] := rfl
    simp [pathComponents, hpieces]
  · rw [pathComponents, if_neg hpath]
    cases pathPieces path with
    | nil => simp
    | cons first rest =>
      have hfirst : n < (if first = "" then "/" else first).utf8ByteSize ↔
          n < first.utf8ByteSize := by
        split
        · next h =>
          have hroot : "/".utf8ByteSize = 1 := by decide
          simp only [h, hroot, String.utf8ByteSize_empty]
          omega
        · exact Iff.rfl
      simp only [List.mem_cons, exists_eq_or_imp, hfirst]
      refine or_congr_right (exists_congr fun piece => ?_)
      rw [List.mem_filter, Bool.not_eq_true', and_assoc]
      refine and_congr_right fun _ => ⟨And.right, fun h => ⟨?_, h⟩⟩
      by_contra hnot
      have hsize := hidle piece (by simpa using hnot)
      omega

theorem exists_component_iff_exists_run (path : String) {n : Nat} (hn : 1 ≤ n) :
    (∃ component ∈ pathComponents path, n < component.utf8ByteSize) ↔
      ∃ run, IsRun '/' path.toList run ∧ n < utf8Len run := by
  rw [exists_component_iff_exists_piece path hn, pathPieces]
  constructor
  · rintro ⟨piece, hpiece, hsize⟩
    exact ⟨piece.toList, mem_splitText_iff_isRun.mp hpiece, by rwa [String.utf8Len_toList]⟩
  · rintro ⟨run, hrun, hsize⟩
    refine ⟨String.ofList run, mem_splitText_iff_isRun.mpr ?_, ?_⟩
    · rwa [String.toList_ofList]
    · rwa [String.utf8ByteSize_ofList]

theorem enforces_checkPathSize (field path : String) :
    Enforces (checkPathSize field path) (pathRequirements field path) := by
  refine (enforces_nil.guard ?_ rfl).guard ?_ rfl
  · have hruns := exists_component_iff_exists_run path (n := 255) (by decide)
    rw [List.any_eq_true]
    simp only [decide_eq_true_eq]
    change ¬ (∃ component ∈ pathComponents path, 255 < component.utf8ByteSize) ↔ ShortRuns path
    rw [hruns]
    simp [ShortRuns]
  · exact Nat.not_lt

structure PathFits (path : String) : Prop where
  size : path.utf8ByteSize ≤ 4096
  components : ∀ component ∈ pathComponents path, component.utf8ByteSize ≤ 255

theorem pathFits_iff {path : String} :
    PathFits path ↔ path.utf8ByteSize ≤ 4096 ∧ ShortRuns path := by
  have hruns := not_congr (exists_component_iff_exists_run path (n := 255) (by decide))
  simp only [not_exists, not_and, Nat.not_lt] at hruns
  exact ⟨fun h => ⟨h.size, hruns.mp h.components⟩, fun h => ⟨h.1, hruns.mpr h.2⟩⟩

theorem checkPathSize_eq_ok_iff {field path : String} :
    checkPathSize field path = .ok () ↔ PathFits path := by
  rw [(enforces_checkPathSize field path).eq_ok_iff, pathFits_iff]
  simp [pathRequirements, segmentRequirement]

theorem enforces_checkTemplate (field template : String) :
    Enforces (checkTemplate field template) (templateRequirements field template) := by
  refine (((enforces_nil.guard ?_ rfl).guard ?_ rfl).guard ?_ rfl).guard ?_ rfl
  · rw [← hasPlaceholder_iff]
    simp
  · simp [not_or, forall_and, List.forall_mem_ne']
  · exact Nat.not_lt
  · have hempty : (trim template).isEmpty = true ↔ trimChars template.toList = [] := by
      simp [trim]
    rw [hempty, trimChars_eq_nil_iff]
    simp

namespace Config

def sourceRequirements (template : String) : List Requirement :=
  templateRequirements "resources.src_template" template ++
    [segmentRequirement "resources.src_template" (trim template)]

/-- What the templates of a configuration must be, in the order in which it is checked. -/
def requirements (config : Config) : List Requirement :=
  config.sourceTemplate.elim [] sourceRequirements ++
    config.urlTemplate.elim [] (templateRequirements "resources.url_template")

/-- A template is too short to be too long a path. -/
theorem enforces_checkSourceTemplate (template : String) :
    Enforces (checkSourceTemplate template) (sourceRequirements template) := by
  refine ((enforces_checkTemplate _ template).seq
    (enforces_checkPathSize _ (trim template))).drop_entailed fun hall => ?_
  have hsize : template.utf8ByteSize ≤ 2048 :=
    hall ⟨_, "resources.src_template" ++ " exceeds max length"⟩ (by simp [templateRequirements])
  have htrim := utf8ByteSize_trim_le template
  change (trim template).utf8ByteSize ≤ 4096
  omega

theorem enforces_check (config : Config) : Enforces config.check config.requirements :=
  (enforces_forM enforces_checkSourceTemplate config.sourceTemplate).seq
    (enforces_forM (enforces_checkTemplate _) config.urlTemplate)

end Config

structure IsTemplate (text : String) : Prop where
  size : text.utf8ByteSize ≤ 2048
  lineFeed : '\n' ∉ text.toList
  carriageReturn : '\x0d' ∉ text.toList
  filled : placeholder <:+: text.toList

/-- A text with a placeholder is not blank. -/
theorem templateRequirements_met_iff {field template : String} :
    (∀ q ∈ templateRequirements field template, q.met) ↔ IsTemplate template := by
  simp only [templateRequirements, List.forall_mem_cons]
  constructor
  · rintro ⟨_, hsize, ⟨hlf, hcr⟩, hfilled, _⟩
    exact ⟨hsize, hlf, hcr, hfilled⟩
  · rintro ⟨hsize, hlf, hcr, hfilled⟩
    exact ⟨⟨'i', hfilled.subset (by decide), by decide⟩, hsize, ⟨hlf, hcr⟩, hfilled, by simp⟩

namespace Config

theorem requirements_met_iff {config : Config} :
    (∀ q ∈ config.requirements, q.met) ↔
      (∀ template ∈ config.sourceTemplate, IsTemplate template ∧ ShortRuns (trim template)) ∧
        ∀ template ∈ config.urlTemplate, IsTemplate template := by
  rw [requirements, List.forall_mem_append]
  refine and_congr ?_ ?_
  · cases config.sourceTemplate with
    | none => simp
    | some template =>
      simp [sourceRequirements, or_imp, forall_and, templateRequirements_met_iff,
        segmentRequirement]
  · cases config.urlTemplate with
    | none => simp
    | some template => simp [templateRequirements_met_iff]

theorem check_eq_ok_iff {config : Config} :
    config.check = .ok () ↔
      (∀ template ∈ config.sourceTemplate, IsTemplate template ∧ ShortRuns (trim template)) ∧
        ∀ template ∈ config.urlTemplate, IsTemplate template :=
  config.enforces_check.eq_ok_iff.trans requirements_met_iff

theorem complaint_ne_pathTooLong {config : Config} {q : Requirement}
    (h : q ∈ config.requirements) :
    q.complaint ≠ "resources.src_template is longer than 4096 bytes" := by
  rcases List.mem_append.mp h with h | h
  · cases hsource : config.sourceTemplate with
    | none => simp [hsource] at h
    | some template =>
      simp only [hsource, Option.elim_some, sourceRequirements, templateRequirements,
        segmentRequirement, List.cons_append, List.nil_append, List.mem_cons, List.not_mem_nil,
        or_false] at h
      rcases h with rfl | rfl | rfl | rfl | rfl <;> (dsimp only; decide)
  · cases hurl : config.urlTemplate with
    | none => simp [hurl] at h
    | some template =>
      simp only [hurl, Option.elim_some, templateRequirements, List.mem_cons, List.not_mem_nil,
        or_false] at h
      rcases h with rfl | rfl | rfl | rfl <;> (dsimp only; decide)

/-- A configuration is accepted exactly if its templates are short single lines
with a placeholder and the source template, trimmed, has short segments. Otherwise
the complaint is about the first requirement that is not met, and never about the
length of a whole path. Segments may be cut as components or at each slash. -/
theorem check_iff_first_unmet (config : Config) :
    (config.check = .ok () ↔
      (∀ template ∈ config.sourceTemplate, IsTemplate template ∧
        ∀ run, IsRun '/' (trim template).toList run → utf8Len run ≤ 255) ∧
      ∀ template ∈ config.urlTemplate, IsTemplate template) ∧
    (∀ complaint, (∃ p, config.check = .error p ∧ p.message = complaint) ↔
      ∃ q, FirstUnmet config.requirements q ∧ q.complaint = complaint) ∧
    (∀ p, config.check = .error p →
      p.message ≠ "resources.src_template is longer than 4096 bytes") ∧
    ∀ path, (∃ component ∈ pathComponents path, 255 < component.utf8ByteSize) ↔
      ∃ run, IsRun '/' path.toList run ∧ 255 < utf8Len run := by
  refine ⟨check_eq_ok_iff, config.enforces_check.error_iff, fun p hp => ?_,
    fun path => exists_component_iff_exists_run path (by decide)⟩
  obtain ⟨q, hq, hmessage⟩ := config.enforces_check.exists_firstUnmet hp
  rw [← hmessage]
  exact complaint_ne_pathTooLong hq.mem

end Config

end Userscript
