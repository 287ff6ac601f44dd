import Userscript.Expansion.Draft

/-! Expansions that only append. What such an expansion does to a draft is what
it does to the empty one, put behind the draft. -/

namespace Userscript

theorem exists_first_not {α : Type} {p : α → Prop} {xs : List α} (h : ¬ ∀ x ∈ xs, p x) :
    ∃ before x after, xs = before ++ x :: after ∧ (∀ y ∈ before, p y) ∧ ¬ p x := by
  induction xs with
  | nil => simp at h
  | cons x xs ih =>
    by_cases hx : p x
    · have hr : ¬ ∀ y ∈ xs, p y := fun hr => h fun y hy => by
        rcases List.mem_cons.mp hy with rfl | hy
        · exact hx
        · exact hr y hy
      obtain ⟨before, y, after, rfl, hb, hy⟩ := ih hr
      exact ⟨x :: before, y, after, rfl, by simpa [hx] using hb, hy⟩
    · exact ⟨[], x, xs, rfl, by simp, hx⟩

namespace Draft

instance : Append Draft :=
  ⟨fun d e => ⟨d.lines ++ e.lines, d.warnings ++ e.warnings, d.calls ++ e.calls⟩⟩

@[simp] theorem lines_append (d e : Draft) : (d ++ e).lines = d.lines ++ e.lines := rfl

@[simp] theorem warnings_append (d e : Draft) : (d ++ e).warnings = d.warnings ++ e.warnings := rfl

@[simp] theorem calls_append (d e : Draft) : (d ++ e).calls = d.calls ++ e.calls := rfl

@[simp] theorem append_empty (d : Draft) : d ++ ({} : Draft) = d := by
  change Draft.mk _ _ _ = d
  simp

@[simp] theorem empty_append (d : Draft) : ({} : Draft) ++ d = d := by
  change Draft.mk _ _ _ = d
  simp

theorem append_assoc (a b c : Draft) : a ++ b ++ c = a ++ (b ++ c) := by
  change Draft.mk _ _ _ = Draft.mk _ _ _
  simp only [Draft.mk.injEq]
  exact ⟨Array.append_assoc, Array.append_assoc, Array.append_assoc⟩

def concat (ds : List Draft) : Draft := ds.foldr (· ++ ·) {}

@[simp] theorem concat_nil : concat [] = {} := rfl

@[simp] theorem concat_cons (d : Draft) (ds : List Draft) : concat (d :: ds) = d ++ concat ds := rfl

theorem concat_append (ds es : List Draft) : concat (ds ++ es) = concat ds ++ concat es := by
  induction ds with
  | nil => simp
  | cons d ds ih => simp only [List.cons_append, concat_cons, ih, append_assoc]

theorem mem_lines_concat {line : String} {ds : List Draft} :
    line ∈ (concat ds).lines ↔ ∃ d ∈ ds, line ∈ d.lines := by
  induction ds with
  | nil => simp
  | cons d ds ih => simp [ih]

end Draft

namespace Expansion

variable {α β : Type}

/-- What comes of an expansion alone. -/
def outcome (x : Expansion α) : Except HeaderError α := (x.on {}).1

/-- What an expansion alone leaves behind, also where it fails. -/
def written (x : Expansion α) : Draft := (x.on {}).2

/-- Neither the outcome nor what is added depends on the draft. -/
structure Appends (x : Expansion α) : Prop where
  on_eq : ∀ d, x.on d = (x.outcome, d ++ x.written)

/-- An expansion that appends lines of one kind only. -/
structure Writes (P : String → Prop) (x : Expansion α) : Prop extends Appends x where
  lines : ∀ line ∈ x.written.lines, P line

@[simp] theorem outcome_pure (a : α) : (pure a : Expansion α).outcome = .ok a := rfl

@[simp] theorem written_pure (a : α) : (pure a : Expansion α).written = {} := rfl

@[simp] theorem outcome_throw (e : HeaderError) : (throw e : Expansion α).outcome = .error e := rfl

@[simp] theorem written_throw (e : HeaderError) : (throw e : Expansion α).written = {} := rfl

@[simp] theorem outcome_emit (line : String) : (emit line).outcome = .ok () := rfl

@[simp] theorem written_emit (line : String) : (emit line).written = { lines := #[line] } := rfl

@[simp] theorem outcome_note (call : Call) : (note call).outcome = .ok () := rfl

@[simp] theorem written_note (call : Call) : (note call).written = { calls := #[call] } := rfl

@[simp] theorem outcome_warn (warnings : List String) : (warn warnings).outcome = .ok () := rfl

@[simp] theorem written_warn (warnings : List String) :
    (warn warnings).written = { warnings := warnings.toArray } := by
  simp [written]

theorem appends_pure (a : α) : (pure a : Expansion α).Appends where
  on_eq d := by simp only [on_pure, outcome_pure, written_pure, Draft.append_empty]

theorem appends_throw (e : HeaderError) : (throw e : Expansion α).Appends where
  on_eq d := by simp only [on_throw, outcome_throw, written_throw, Draft.append_empty]

theorem appends_emit (line : String) : (emit line).Appends where
  on_eq d := by
    change (_, Draft.mk _ _ _) = (_, Draft.mk _ _ _)
    simp

theorem appends_note (call : Call) : (note call).Appends where
  on_eq d := by
    change (_, Draft.mk _ _ _) = (_, Draft.mk _ _ _)
    simp

theorem appends_warn (warnings : List String) : (warn warnings).Appends where
  on_eq d := by
    change (_, Draft.mk _ _ _) = (_, Draft.mk _ _ _)
    simp [← Array.toList_inj]

section Bind

variable {x : Expansion α} {f : α → Expansion β}

theorem outcome_bind (hf : ∀ a, (f a).Appends) :
    (x >>= f).outcome = x.outcome >>= fun a => (f a).outcome := by
  unfold outcome
  rw [on_bind]
  rcases x.on {} with ⟨_ | a, d⟩
  · rfl
  · change ((f a).on d).1 = (f a).outcome
    rw [(hf a).on_eq d]

theorem written_bind_of_ok (hf : ∀ a, (f a).Appends) {a : α} (h : x.outcome = .ok a) :
    (x >>= f).written = x.written ++ (f a).written := by
  unfold outcome at h
  unfold written
  rw [on_bind]
  rcases hx : x.on {} with ⟨r, d⟩
  rw [hx] at h
  subst h
  exact congrArg Prod.snd ((hf a).on_eq d)

theorem written_bind_of_error {e : HeaderError} (h : x.outcome = .error e) :
    (x >>= f).written = x.written := by
  unfold outcome at h
  unfold written
  rw [on_bind]
  rcases hx : x.on {} with ⟨r, d⟩
  rw [hx] at h
  subst h
  rfl

theorem Appends.bind (hx : x.Appends) (hf : ∀ a, (f a).Appends) : (x >>= f).Appends := by
  constructor
  intro d
  rw [on_bind, hx.on_eq d, outcome_bind hf]
  cases h : x.outcome with
  | error e =>
    rw [written_bind_of_error h]
    rfl
  | ok a =>
    -- the rest runs on what `x` has left, and appends to that
    rw [written_bind_of_ok hf h, ← Draft.append_assoc]
    exact (hf a).on_eq _

theorem Appends.forM {xs : List α} {f : α → Expansion Unit} (hf : ∀ a, (f a).Appends) :
    (xs.forM f).Appends := by
  induction xs with
  | nil => exact appends_pure ()
  | cons a as ih => exact (hf a).bind fun _ => ih

end Bind

section Loop

variable {f : α → Expansion Unit}

theorem outcome_forM_cons {a : α} {as : List α} (hf : ∀ a, (f a).Appends) :
    ((a :: as).forM f).outcome = (f a).outcome >>= fun _ => (as.forM f).outcome :=
  outcome_bind fun _ => Appends.forM hf

theorem written_forM_cons {a : α} {as : List α} (hf : ∀ a, (f a).Appends)
    (h : (f a).outcome = .ok ()) :
    ((a :: as).forM f).written = (f a).written ++ (as.forM f).written :=
  written_bind_of_ok (fun _ => Appends.forM hf) h

theorem outcome_forM_eq_ok {xs : List α} (hf : ∀ a, (f a).Appends) :
    (xs.forM f).outcome = .ok () ↔ ∀ a ∈ xs, (f a).outcome = .ok () := by
  induction xs with
  | nil => exact ⟨fun _ _ hm => absurd hm List.not_mem_nil, fun _ => rfl⟩
  | cons a as ih =>
    rw [outcome_forM_cons hf]
    cases h : (f a).outcome with
    | error e =>
      refine ⟨fun hc => ?_, fun hc => ?_⟩
      · cases hc
      · exact absurd (h.symm.trans (hc a (by simp))) (by simp)
    | ok u =>
      change (as.forM f).outcome = .ok () ↔ _
      simp only [ih, List.mem_cons, forall_eq_or_imp, h, true_and]

theorem written_forM {xs : List α} (hf : ∀ a, (f a).Appends)
    (h : ∀ a ∈ xs, (f a).outcome = .ok ()) :
    (xs.forM f).written = Draft.concat (xs.map fun a => (f a).written) := by
  induction xs with
  | nil => rfl
  | cons a as ih =>
    rw [written_forM_cons hf (h a (by simp)), ih fun b hb => h b (by simp [hb])]
    rfl

/-- A run over a list stops at the first element that fails. -/
theorem forM_of_error {before : List α} {a : α} {e : HeaderError}
    (hf : ∀ a, (f a).Appends) (hb : ∀ b ∈ before, (f b).outcome = .ok ())
    (ha : (f a).outcome = .error e) (after : List α) :
    ((before ++ a :: after).forM f).outcome = .error e ∧
      ((before ++ a :: after).forM f).written =
        Draft.concat (before.map fun b => (f b).written) ++ (f a).written := by
  induction before with
  | nil =>
    have hw : ((a :: after).forM f).written = (f a).written := written_bind_of_error ha
    simp only [List.nil_append, List.map_nil, Draft.concat_nil, Draft.empty_append, hw, and_true]
    rw [outcome_forM_cons hf, ha]
    rfl
  | cons b bs ih =>
    have hok := hb b (by simp)
    obtain ⟨h1, h2⟩ := ih fun c hc => hb c (by simp [hc])
    constructor
    · rw [List.cons_append, outcome_forM_cons hf, hok]
      exact h1
    · rw [List.cons_append, written_forM_cons hf hok, h2, List.map_cons, Draft.concat_cons,
        Draft.append_assoc]

end Loop

section Writes

variable {P : String → Prop} {x : Expansion α} {f : α → Expansion β}

theorem writes_pure (a : α) : (pure a : Expansion α).Writes P := ⟨appends_pure a, by simp⟩

theorem writes_throw (e : HeaderError) : (throw e : Expansion α).Writes P :=
  ⟨appends_throw e, by simp⟩

theorem writes_emit {line : String} (h : P line) : (emit line).Writes P :=
  ⟨appends_emit line, by simpa using h⟩

theorem writes_note (call : Call) : (note call).Writes P := ⟨appends_note call, by simp⟩

theorem writes_warn (warnings : List String) : (warn warnings).Writes P :=
  ⟨appends_warn warnings, by simp⟩

theorem Writes.bind (hx : x.Writes P) (hf : ∀ a, (f a).Writes P) : (x >>= f).Writes P := by
  have happ : ∀ a, (f a).Appends := fun a => (hf a).toAppends
  refine ⟨hx.toAppends.bind happ, ?_⟩
  cases h : x.outcome with
  | error e =>
    rw [written_bind_of_error h]
    exact hx.lines
  | ok a =>
    rw [written_bind_of_ok happ h]
    intro line hm
    rcases Array.mem_append.mp hm with hm | hm
    · exact hx.lines line hm
    · exact (hf a).lines line hm

theorem Writes.ite {p : Prop} [Decidable p] {x y : Expansion α} (hx : p → x.Writes P)
    (hy : ¬ p → y.Writes P) : (if p then x else y).Writes P := by
  split
  · next h => exact hx h
  · next h => exact hy h

theorem Writes.forM {xs : List α} {f : α → Expansion Unit} (hf : ∀ a, (f a).Writes P) :
    (xs.forM f).Writes P := by
  induction xs with
  | nil => exact writes_pure ()
  | cons a as ih => exact (hf a).bind fun _ => ih

end Writes

end Expansion

end Userscript
