import Userscript.Proofs.Expansion.Digests

/-! What the resolution of a resource asks of the resolvers and of the hasher, in
which order, and which of its failures comes first. -/

namespace Userscript

open Expansion

namespace Collaborators

variable (collaborators : Collaborators)

/-- The digest of a source, in which a path that is not known counts as a failure too. -/
def digestSource (source : String) (algorithm : HashAlgorithm) : Except HashFailure String :=
  collaborators.absolutePath source >>= fun path => collaborators.digestFile path algorithm

def sourceHashCalls (source : String) (algorithm : HashAlgorithm) : List Call :=
  match collaborators.absolutePath source with
  | .ok path => [.hash path algorithm]
  | .error _ => []

end Collaborators

/-- The place of a question among those that one resource gives rise to. -/
def Call.rank : Call → Nat
  | .source _ => 0
  | .hash _ _ => 1
  | .url _ => 2
  | .locale _ => 3

namespace Resource

section

variable (options : Options) (collaborators : Collaborators) (r : Resource)

/-- The source file that the resource names, or else the one of the resolver. -/
def knownSource : Option String := r.src.or (options.sourceOf.bind fun resolve => resolve r)

/-- The resource as the resolver of URLs sees it. -/
def located : Resource := { r with src := r.knownSource options }

def knownUrl : Option String :=
  r.url.or (options.urlOf.bind fun resolve => resolve (r.located options))

/-- The digest of a file is wanted: of the source, as seen from the working directory. -/
def WantsDigest (path : String) (algorithm : HashAlgorithm) : Prop :=
  r.hash = some ⟨.computed, algorithm⟩ ∧ ∃ source, r.knownSource options = some source ∧
    collaborators.absolutePath source = .ok path

/-- A digest that is to be computed can be computed. -/
def DigestKnown : Prop :=
  ∀ algorithm, r.hash = some ⟨.computed, algorithm⟩ → ∃ path digest,
    r.WantsDigest options collaborators path algorithm ∧
      collaborators.digestFile path algorithm = .ok digest

/-- Why the digest of a known source cannot be computed. Without a path for the
source the hasher is not even asked. -/
inductive HashFails : HashFailure → Prop where
  | path {source : String} {algorithm : HashAlgorithm} {f : HashFailure}
      (hhash : r.hash = some ⟨.computed, algorithm⟩) (hsource : r.knownSource options = some source)
      (hf : collaborators.absolutePath source = .error f) : HashFails f
  | file {path : String} {algorithm : HashAlgorithm} {f : HashFailure}
      (h : r.WantsDigest options collaborators path algorithm)
      (hf : collaborators.digestFile path algorithm = .error f) : HashFails f

inductive HasIntegrity : Option String → Prop where
  | absent (h : r.hash = none) : HasIntegrity none
  | given {digest : String} {algorithm : HashAlgorithm}
      (h : r.hash = some ⟨.given digest, algorithm⟩) :
      HasIntegrity (some (integrityText algorithm digest))
  | computed {path digest : String} {algorithm : HashAlgorithm}
      (h : r.WantsDigest options collaborators path algorithm)
      (hdigest : collaborators.digestFile path algorithm = .ok digest) :
      HasIntegrity (some (integrityText algorithm digest))

/-- What is asked for a resource, and what comes of it. -/
structure Resolution (outcome : Except HeaderError String) (calls : List Call) : Prop where
  ordered : calls.Pairwise fun call call' => call.rank < call'.rank
  source : ∀ x, .source x ∈ calls ↔ r.src = none ∧ options.sourceOf.isSome = true ∧ x = r
  hash : ∀ path algorithm, .hash path algorithm ∈ calls ↔
    r.WantsDigest options collaborators path algorithm
  url : ∀ x, .url x ∈ calls ↔ r.url = none ∧ options.urlOf.isSome = true ∧
    r.DigestKnown options collaborators ∧ x = r.located options
  locale : ∀ key, .locale key ∉ calls
  unknownSource : ∀ id, outcome = .error (.unknownSource id) ↔
    id = r.id ∧ (∃ algorithm, r.hash = some ⟨.computed, algorithm⟩) ∧ r.knownSource options = none
  hashFailure : ∀ f, outcome = .error (.hash f) ↔ r.HashFails options collaborators f
  unknownUrl : ∀ id, outcome = .error (.unknownUrl id) ↔
    id = r.id ∧ r.DigestKnown options collaborators ∧ r.knownUrl options = none
  success : (∃ text, outcome = .ok text) ↔
    r.DigestKnown options collaborators ∧ (r.knownUrl options).isSome = true
  text : ∀ text, outcome = .ok text ↔ ∃ url integrity, r.knownUrl options = some url ∧
    r.HasIntegrity options collaborators integrity ∧ addIntegrity url integrity = text

/-- What comes of the digest once the source has been looked for. -/
def integrityOutcome : Except HeaderError (Option String) :=
  (resolveIntegrity collaborators r.id (r.knownSource options) r.hash).outcome

def sourceCalls : List Call :=
  match r.src, options.sourceOf with
  | none, some _ => [.source r]
  | _, _ => []

def hashCalls : List Call :=
  match r.hash, r.knownSource options with
  | some ⟨.computed, algorithm⟩, some source => collaborators.sourceHashCalls source algorithm
  | _, _ => []

def urlCalls : List Call :=
  match r.url, options.urlOf with
  | none, some _ => [.url (r.located options)]
  | _, _ => []

end

variable {options : Options} {collaborators : Collaborators} {r : Resource}

theorem mem_sourceCalls {call : Call} :
    call ∈ r.sourceCalls options ↔
      r.src = none ∧ options.sourceOf.isSome = true ∧ call = .source r := by
  unfold sourceCalls
  cases r.src <;> cases options.sourceOf <;> simp

theorem mem_sourceHashCalls {call : Call} {source : String} {algorithm : HashAlgorithm} :
    call ∈ collaborators.sourceHashCalls source algorithm ↔
      ∃ path, collaborators.absolutePath source = .ok path ∧ call = .hash path algorithm := by
  unfold Collaborators.sourceHashCalls
  cases collaborators.absolutePath source <;> simp

theorem mem_hashCalls {call : Call} :
    call ∈ r.hashCalls options collaborators ↔ ∃ path algorithm,
      r.WantsDigest options collaborators path algorithm ∧ call = .hash path algorithm := by
  unfold hashCalls WantsDigest
  rcases r.hash with _ | ⟨_ | digest, algorithm⟩
  · simp
  · cases r.knownSource options <;> simp [mem_sourceHashCalls, and_assoc]
  · simp

theorem mem_urlCalls {call : Call} :
    call ∈ r.urlCalls options ↔
      r.url = none ∧ options.urlOf.isSome = true ∧ call = .url (r.located options) := by
  unfold urlCalls
  cases r.url <;> cases options.urlOf <;> simp

theorem DigestKnown.knownSource_ne_none {algorithm : HashAlgorithm}
    (hknown : r.DigestKnown options collaborators)
    (hhash : r.hash = some ⟨.computed, algorithm⟩) : r.knownSource options ≠ none := by
  obtain ⟨path, digest, ⟨_, source, hsource, _⟩, _⟩ := hknown algorithm hhash
  simp [hsource]

theorem HashFails.knownSource_ne_none {f : HashFailure}
    (h : r.HashFails options collaborators f) : r.knownSource options ≠ none := by
  cases h with
  | path _ hsource _ => simp [hsource]
  | file hwants _ =>
    obtain ⟨_, source, hsource, _⟩ := hwants
    simp [hsource]

theorem HasIntegrity.digestKnown {integrity : Option String}
    (h : r.HasIntegrity options collaborators integrity) :
    r.DigestKnown options collaborators := by
  intro algorithm hhash
  cases h with
  | absent h => simp [h] at hhash
  | given h => simp [h] at hhash
  | computed hwants hdigest =>
    obtain rfl : _ = algorithm := by simpa [hwants.1] using hhash
    exact ⟨_, _, hwants, hdigest⟩

theorem DigestKnown.exists_hasIntegrity (h : r.DigestKnown options collaborators) :
    ∃ integrity, r.HasIntegrity options collaborators integrity := by
  rcases hhash : r.hash with _ | ⟨_ | digest, algorithm⟩
  · exact ⟨none, .absent hhash⟩
  · obtain ⟨path, digest, hwants, hdigest⟩ := h algorithm hhash
    exact ⟨_, .computed hwants hdigest⟩
  · exact ⟨_, .given hhash⟩

variable (options collaborators r) in
/-- Either the digest is known, or its source is not, or it cannot be computed. -/
theorem digest_cases :
    (∃ integrity, r.HasIntegrity options collaborators integrity) ∨
      (∃ algorithm, r.hash = some ⟨.computed, algorithm⟩ ∧ r.knownSource options = none) ∨
      ∃ f, r.HashFails options collaborators f := by
  rcases hhash : r.hash with _ | ⟨_ | digest, algorithm⟩
  · exact .inl ⟨none, .absent hhash⟩
  · cases hsource : r.knownSource options with
    | none => exact .inr (.inl ⟨algorithm, rfl, rfl⟩)
    | some source =>
      cases hpath : collaborators.absolutePath source with
      | error f => exact .inr (.inr ⟨f, .path hhash hsource hpath⟩)
      | ok path =>
        have hwants : r.WantsDigest options collaborators path algorithm :=
          ⟨hhash, source, hsource, hpath⟩
        cases hd : collaborators.digestFile path algorithm with
        | error f => exact .inr (.inr ⟨f, .file hwants hd⟩)
        | ok digest => exact .inl ⟨_, .computed hwants hd⟩
  · exact .inl ⟨_, .given hhash⟩

theorem pairwise_calls :
    (r.sourceCalls options ++ (r.hashCalls options collaborators ++ r.urlCalls options)).Pairwise
      fun call call' => call.rank < call'.rank := by
  have hsource : ∀ call ∈ r.sourceCalls options, call.rank = 0 := by
    intro call hm
    obtain ⟨_, _, rfl⟩ := mem_sourceCalls.mp hm
    rfl
  have hhash : ∀ call ∈ r.hashCalls options collaborators, call.rank = 1 := by
    intro call hm
    obtain ⟨path, algorithm, _, rfl⟩ := mem_hashCalls.mp hm
    rfl
  have hurl : ∀ call ∈ r.urlCalls options, call.rank = 2 := by
    intro call hm
    obtain ⟨_, _, rfl⟩ := mem_urlCalls.mp hm
    rfl
  rw [List.pairwise_append, List.pairwise_append]
  refine ⟨?_, ⟨?_, ?_, ?_⟩, ?_⟩
  · unfold sourceCalls
    split <;> simp
  · unfold hashCalls
    split
    · unfold Collaborators.sourceHashCalls
      split <;> simp
    · simp
  · unfold urlCalls
    split <;> simp
  · intro call hm call' hm'
    have h := hhash call hm
    have h' := hurl call' hm'
    omega
  · intro call hm call' hm'
    have h := hsource call hm
    rcases List.mem_append.mp hm' with hm' | hm'
    · have h' := hhash call' hm'
      omega
    · have h' := hurl call' hm'
      omega

end Resource

section

variable (options : Options) (collaborators : Collaborators) (r : Resource)

theorem resolveSource_run :
    (resolveSource options r).outcome = .ok (r.knownSource options) ∧
      (resolveSource options r).written = { calls := (r.sourceCalls options).toArray } := by
  unfold resolveSource Resource.knownSource Resource.sourceCalls
  cases r.src <;> cases options.sourceOf <;> exact ⟨rfl, rfl⟩

theorem note_orHashFailure_run (call : Call) (result : Except HashFailure String) :
    (note call >>= fun _ => orHashFailure result).outcome = result.mapError .hash ∧
      (note call >>= fun _ => orHashFailure result).written = { calls := #[call] } := by
  cases result <;> exact ⟨rfl, rfl⟩

theorem hashSource_run (source : String) (algorithm : HashAlgorithm) :
    (hashSource collaborators source algorithm).outcome =
        (collaborators.digestSource source algorithm).mapError .hash ∧
      (hashSource collaborators source algorithm).written =
        { calls := (collaborators.sourceHashCalls source algorithm).toArray } := by
  unfold hashSource Collaborators.digestSource Collaborators.sourceHashCalls
  cases collaborators.absolutePath source with
  | error f => exact ⟨rfl, rfl⟩
  | ok path =>
    exact note_orHashFailure_run (.hash path algorithm) (collaborators.digestFile path algorithm)

theorem written_resolveIntegrity :
    (resolveIntegrity collaborators r.id (r.knownSource options) r.hash).written =
      { calls := (r.hashCalls options collaborators).toArray } := by
  unfold Resource.hashCalls
  rcases r.hash with _ | ⟨_ | digest, algorithm⟩
  · rfl
  · cases r.knownSource options with
    | none => rfl
    | some source =>
      have hrun := hashSource_run collaborators source algorithm
      cases hd : (hashSource collaborators source algorithm).outcome with
      | error e => exact (written_bind_of_error hd).trans hrun.2
      | ok digest =>
        refine (written_bind_of_ok (fun _ => appends_pure _) hd).trans ?_
        rw [written_pure, Draft.append_empty]
        exact hrun.2
  · cases r.knownSource options <;> rfl

theorem integrityOutcome_of_computed {source : String} {algorithm : HashAlgorithm}
    (hhash : r.hash = some ⟨.computed, algorithm⟩) (hsource : r.knownSource options = some source) :
    r.integrityOutcome options collaborators =
      (collaborators.digestSource source algorithm).mapError .hash >>= fun digest =>
        .ok (some (integrityText algorithm digest)) := by
  rw [Resource.integrityOutcome, hsource, hhash, resolveIntegrity,
    outcome_bind fun _ => appends_pure _]
  exact congrArg (· >>= _) (hashSource_run collaborators source algorithm).1

theorem integrityOutcome_of_wantsDigest {path : String} {algorithm : HashAlgorithm}
    (h : r.WantsDigest options collaborators path algorithm) :
    r.integrityOutcome options collaborators =
      (collaborators.digestFile path algorithm).mapError .hash >>= fun digest =>
        .ok (some (integrityText algorithm digest)) := by
  obtain ⟨hhash, source, hsource, hpath⟩ := h
  rw [integrityOutcome_of_computed options collaborators r hhash hsource,
    Collaborators.digestSource, hpath]
  rfl

theorem integrityOutcome_of_hasIntegrity {integrity : Option String}
    (h : r.HasIntegrity options collaborators integrity) :
    r.integrityOutcome options collaborators = .ok integrity := by
  cases h with
  | absent h =>
    rw [Resource.integrityOutcome, h]
    rfl
  | given h =>
    rw [Resource.integrityOutcome, h]
    cases r.knownSource options <;> rfl
  | computed hwants hdigest =>
    rw [integrityOutcome_of_wantsDigest options collaborators r hwants, hdigest]
    rfl

theorem integrityOutcome_of_no_source {algorithm : HashAlgorithm}
    (hhash : r.hash = some ⟨.computed, algorithm⟩) (hnone : r.knownSource options = none) :
    r.integrityOutcome options collaborators = .error (.unknownSource r.id) := by
  rw [Resource.integrityOutcome, hhash, hnone]
  rfl

theorem integrityOutcome_of_hashFails {f : HashFailure}
    (h : r.HashFails options collaborators f) :
    r.integrityOutcome options collaborators = .error (.hash f) := by
  cases h with
  | path hhash hsource hf =>
    rw [integrityOutcome_of_computed options collaborators r hhash hsource,
      Collaborators.digestSource, hf]
    rfl
  | file hwants hf =>
    rw [integrityOutcome_of_wantsDigest options collaborators r hwants, hf]
    rfl

theorem resolveUrl_run :
    (resolveUrl options (r.located options)).outcome =
        (r.knownUrl options).elim (.error (.unknownUrl r.id)) .ok ∧
      (resolveUrl options (r.located options)).written =
        { calls := (r.urlCalls options).toArray } := by
  have hurl : (r.located options).url = r.url := rfl
  unfold resolveUrl Resource.knownUrl Resource.urlCalls
  rw [hurl]
  cases r.url with
  | some url => cases options.urlOf <;> exact ⟨rfl, rfl⟩
  | none =>
    cases options.urlOf with
    | none => exact ⟨rfl, rfl⟩
    | some resolve =>
      simp only [Option.none_or, Option.bind_some]
      cases resolve (r.located options) <;> exact ⟨rfl, rfl⟩

theorem draft_of_calls_append (calls calls' : List Call) :
    ({ calls := calls.toArray } : Draft) ++ ({ calls := calls'.toArray } : Draft) =
      { calls := (calls ++ calls').toArray } := by
  change Draft.mk _ _ _ = _
  simp

def resolveLocated : Expansion String :=
  resolveIntegrity collaborators r.id (r.knownSource options) r.hash >>= fun integrity =>
    resolveUrl options (r.located options) >>= fun url => pure (addIntegrity url integrity)

theorem appends_resolveUrl_bind (integrity : Option String) :
    (resolveUrl options (r.located options) >>= fun url =>
      (pure (addIntegrity url integrity) : Expansion String)).Appends :=
  (writes_resolveUrl (P := fun _ => True) ..).toAppends.bind fun _ => appends_pure _

theorem resourceUrl_run :
    (resourceUrl options collaborators r).outcome =
        (resolveLocated options collaborators r).outcome ∧
      (resourceUrl options collaborators r).written =
        { calls := (r.sourceCalls options).toArray } ++
          (resolveLocated options collaborators r).written := by
  have hsource := resolveSource_run options r
  have hrest : ∀ source, (resolveIntegrity collaborators r.id source r.hash >>= fun integrity =>
      resolveUrl options { r with src := source } >>= fun url =>
        (pure (addIntegrity url integrity) : Expansion String)).Appends := fun source =>
    (writes_resolveIntegrity (P := fun _ => True) ..).toAppends.bind fun _ =>
      (writes_resolveUrl (P := fun _ => True) ..).toAppends.bind fun _ => appends_pure _
  constructor
  · rw [resourceUrl, outcome_bind hrest, hsource.1]
    rfl
  · rw [resourceUrl, written_bind_of_ok hrest hsource.1, hsource.2]
    rfl

theorem resourceUrl_of_ok {integrity : Option String}
    (h : r.integrityOutcome options collaborators = .ok integrity) :
    (resourceUrl options collaborators r).outcome =
        (r.knownUrl options).elim (.error (.unknownUrl r.id))
          (fun url => .ok (addIntegrity url integrity)) ∧
      (resourceUrl options collaborators r).written =
        { calls := (r.sourceCalls options ++
            (r.hashCalls options collaborators ++ r.urlCalls options)).toArray } := by
  have hrun := resourceUrl_run options collaborators r
  have hurl := resolveUrl_run options r
  have happ := appends_resolveUrl_bind options r
  constructor
  · rw [hrun.1, resolveLocated, outcome_bind happ]
    change (r.integrityOutcome options collaborators >>= _) = _
    rw [h]
    change (resolveUrl options (r.located options) >>= _).outcome = _
    rw [outcome_bind fun _ => appends_pure _, hurl.1]
    cases r.knownUrl options <;> rfl
  · have hlast : (resolveUrl options (r.located options) >>= fun url =>
        (pure (addIntegrity url integrity) : Expansion String)).written =
          (resolveUrl options (r.located options)).written := by
      cases ho : (resolveUrl options (r.located options)).outcome with
      | error e => exact written_bind_of_error ho
      | ok url => rw [written_bind_of_ok (fun _ => appends_pure _) ho, written_pure,
          Draft.append_empty]
    rw [hrun.2, resolveLocated, written_bind_of_ok happ h, hlast, hurl.2,
      written_resolveIntegrity, draft_of_calls_append, draft_of_calls_append]

theorem resourceUrl_of_error {e : HeaderError}
    (h : r.integrityOutcome options collaborators = .error e) :
    (resourceUrl options collaborators r).outcome = .error e ∧
      (resourceUrl options collaborators r).written =
        { calls := (r.sourceCalls options ++ r.hashCalls options collaborators).toArray } := by
  have hrun := resourceUrl_run options collaborators r
  constructor
  · rw [hrun.1, resolveLocated, outcome_bind (appends_resolveUrl_bind options r)]
    change (r.integrityOutcome options collaborators >>= _) = _
    rw [h]
    rfl
  · rw [hrun.2, resolveLocated, written_bind_of_error h, written_resolveIntegrity,
      draft_of_calls_append]

end

section

variable {options : Options} {collaborators : Collaborators} {r : Resource}

theorem Resource.HasIntegrity.unique {integrity integrity' : Option String}
    (h : r.HasIntegrity options collaborators integrity)
    (h' : r.HasIntegrity options collaborators integrity') : integrity = integrity' := by
  have hok := integrityOutcome_of_hasIntegrity options collaborators r h
  have hok' := integrityOutcome_of_hasIntegrity options collaborators r h'
  rw [hok] at hok'
  exact Except.ok.inj hok'

theorem Resource.HashFails.unique {f f' : HashFailure}
    (h : r.HashFails options collaborators f) (h' : r.HashFails options collaborators f') :
    f = f' := by
  have herror := integrityOutcome_of_hashFails options collaborators r h
  rw [integrityOutcome_of_hashFails options collaborators r h'] at herror
  exact HeaderError.hash.inj (Except.error.inj herror.symm)

theorem Resource.HashFails.not_digestKnown {f : HashFailure}
    (h : r.HashFails options collaborators f) : ¬ r.DigestKnown options collaborators := by
  intro hknown
  obtain ⟨integrity, hintegrity⟩ := hknown.exists_hasIntegrity
  have hok := integrityOutcome_of_hasIntegrity options collaborators r hintegrity
  rw [integrityOutcome_of_hashFails options collaborators r h] at hok
  cases hok

theorem Resource.HasIntegrity.resolution {integrity : Option String}
    (h : r.HasIntegrity options collaborators integrity) :
    r.Resolution options collaborators
      ((r.knownUrl options).elim (.error (.unknownUrl r.id))
        fun url => .ok (addIntegrity url integrity))
      (r.sourceCalls options ++ (r.hashCalls options collaborators ++ r.urlCalls options)) := by
  have hknown := h.digestKnown
  have hneeded : ∀ algorithm, r.hash = some ⟨.computed, algorithm⟩ →
      r.knownSource options ≠ none := fun algorithm => hknown.knownSource_ne_none
  constructor
  case ordered => exact Resource.pairwise_calls
  case source => simp [Resource.mem_sourceCalls, Resource.mem_hashCalls, Resource.mem_urlCalls]
  case hash => simp [Resource.mem_sourceCalls, Resource.mem_hashCalls, Resource.mem_urlCalls]
  case url =>
    simp [Resource.mem_sourceCalls, Resource.mem_hashCalls, Resource.mem_urlCalls, hknown]
  case locale => simp [Resource.mem_sourceCalls, Resource.mem_hashCalls, Resource.mem_urlCalls]
  case unknownSource =>
    intro id
    constructor
    · cases r.knownUrl options <;> simp
    · rintro ⟨_, ⟨algorithm, hhash⟩, hnone⟩
      exact absurd hnone (hneeded algorithm hhash)
  case hashFailure =>
    intro f
    constructor
    · cases r.knownUrl options <;> simp
    · intro hfails
      exact absurd hknown hfails.not_digestKnown
  case unknownUrl =>
    intro id
    cases r.knownUrl options with
    | none => simp [hknown, eq_comm]
    | some url => simp
  case success => cases r.knownUrl options <;> simp [hknown]
  case text =>
    intro text
    cases r.knownUrl options with
    | none => simp
    | some url =>
      constructor
      · rintro ⟨⟩
        exact ⟨url, integrity, rfl, h, rfl⟩
      · rintro ⟨_, integrity', ⟨⟩, h', rfl⟩
        obtain rfl := h.unique h'
        rfl

theorem Resource.resolution_of_not_known {e : HeaderError}
    (hunknown : ¬ r.DigestKnown options collaborators)
    (hsource : ∀ id, e = .unknownSource id ↔ id = r.id ∧
      (∃ algorithm, r.hash = some ⟨.computed, algorithm⟩) ∧ r.knownSource options = none)
    (hhash : ∀ f, e = .hash f ↔ r.HashFails options collaborators f)
    (hurl : ∀ id, e ≠ .unknownUrl id) :
    r.Resolution options collaborators (.error e)
      (r.sourceCalls options ++ r.hashCalls options collaborators) := by
  constructor
  case ordered =>
    exact Resource.pairwise_calls.sublist
      ((List.sublist_append_left _ (r.urlCalls options)).append_left _)
  case source => simp [Resource.mem_sourceCalls, Resource.mem_hashCalls]
  case hash => simp [Resource.mem_sourceCalls, Resource.mem_hashCalls]
  case url => simp [Resource.mem_sourceCalls, Resource.mem_hashCalls, hunknown]
  case locale => simp [Resource.mem_sourceCalls, Resource.mem_hashCalls]
  case unknownSource => simpa using hsource
  case hashFailure => simpa using hhash
  case unknownUrl => simp [hunknown, hurl]
  case success => simp [hunknown]
  case text =>
    intro text
    constructor
    · rintro ⟨⟩
    · rintro ⟨_, integrity, _, h, _⟩
      exact absurd h.digestKnown hunknown

theorem Resource.resolution_of_no_source {algorithm : HashAlgorithm}
    (hhash : r.hash = some ⟨.computed, algorithm⟩) (hnone : r.knownSource options = none) :
    r.Resolution options collaborators (.error (.unknownSource r.id))
      (r.sourceCalls options ++ r.hashCalls options collaborators) := by
  have hunknown : ¬ r.DigestKnown options collaborators := fun hknown =>
    hknown.knownSource_ne_none hhash hnone
  refine Resource.resolution_of_not_known hunknown ?_ ?_ (by simp)
  · intro id
    simp [hhash, hnone, eq_comm]
  · intro f
    constructor
    · rintro ⟨⟩
    · intro hfails
      exact absurd hnone hfails.knownSource_ne_none

theorem Resource.HashFails.resolution {f : HashFailure}
    (h : r.HashFails options collaborators f) :
    r.Resolution options collaborators (.error (.hash f))
      (r.sourceCalls options ++ r.hashCalls options collaborators) := by
  refine Resource.resolution_of_not_known h.not_digestKnown ?_ ?_ (by simp)
  · intro id
    constructor
    · rintro ⟨⟩
    · rintro ⟨_, _, hnone⟩
      exact absurd hnone h.knownSource_ne_none
  · intro f'
    constructor
    · rintro ⟨⟩
      exact h
    · intro h'
      rw [h.unique h']

theorem exists_resolution (options : Options) (collaborators : Collaborators) (r : Resource) :
    ∃ outcome calls, r.Resolution options collaborators outcome calls ∧
      (resourceUrl options collaborators r).outcome = outcome ∧
      (resourceUrl options collaborators r).written = { calls := calls.toArray } := by
  rcases r.digest_cases options collaborators with
    ⟨integrity, h⟩ | ⟨algorithm, hhash, hnone⟩ | ⟨f, h⟩
  · exact ⟨_, _, h.resolution, resourceUrl_of_ok options collaborators r
      (integrityOutcome_of_hasIntegrity options collaborators r h)⟩
  · exact ⟨_, _, Resource.resolution_of_no_source hhash hnone,
      resourceUrl_of_error options collaborators r
        (integrityOutcome_of_no_source options collaborators r hhash hnone)⟩
  · exact ⟨_, _, h.resolution, resourceUrl_of_error options collaborators r
      (integrityOutcome_of_hashFails options collaborators r h)⟩

namespace Resource.Resolution

variable {outcome : Except HeaderError String} {calls : List Call} {directory reason : String}

end Resource.Resolution

/-- Without a working directory only a source with an absolute path can be hashed. -/
example :
    let collaborators : Collaborators := ⟨LocaleRule.bestFit, fun _ _ => .ok "d", .error "gone"⟩
    let resource (source : String) : Resource :=
      ⟨"l", some source, some "u", some ⟨.computed, .md5⟩⟩
    (resourceUrl {} collaborators (resource "a.js")).on {} =
        (.error (.hash (.noWorkingDirectory "gone")), {}) ∧
      (resourceUrl {} collaborators (resource "/a.js")).on {} =
        (.ok "u#md5=d", { calls := #[.hash "/a.js" .md5] }) :=
  ⟨rfl, rfl⟩

end

end Userscript
