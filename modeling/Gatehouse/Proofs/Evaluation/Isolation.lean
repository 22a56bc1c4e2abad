import Gatehouse.Proofs.Evaluation.Uploads

/-!
# Where versions are evaluated

A version is loaded under its id, but its source is evaluated at the document of its package.  So it does
not depend on the ids which versions meet there: versions of different packages do not, and versions of
one package do.

1. **Packages in addresses.**  A package that is written in names (`Package.IsNamed`) stands in an address
   as it is, and no other package of names stands there so (`path_eq_of_dataPath`).
2. **Evaluations** (`EvaluatedAt`).  What a request to evaluate is about is told by the request before it,
   which is about a policy.  It goes to the document of the package of this policy
   (`Peers.Reaches.evaluatedAt`).
3. **Two versions at one document** (`First.exists_shared`).  A policy gets another source without getting
   another package, and both versions are evaluated.
-/

namespace Gatehouse

open Service Store Http RuleEngine Text

/-! ## Packages in addresses -/

namespace Rego

/-- Every segment of the package is a word of the characters of names. -/
def Package.IsNamed (p : Package) : Prop :=
  ∀ s ∈ p.path, s ≠ "" ∧ s.toList.all isNamePart = true

instance (p : Package) : Decidable p.IsNamed := by
  unfold Package.IsNamed
  infer_instance

theorem plain_of_isNamePart {c : Char} (h : isNamePart c = true) :
    inPath c = false ∧ c ≠ '\\' ∧ c ≠ '.' ∧ c ≠ '%' ∧ c ≠ '/' := by
  rcases Bool.or_eq_true _ _ ▸ h with h | h
  · exact plain_of_isAlphanum h
  · obtain rfl : c = '_' := by simpa using h
    decide

namespace Module

variable {m m' : Module}

/-- A package of names stands in an address as it is. -/
theorem isPlain_dataPath (h : m.package.IsNamed) : Url.IsPlain ("v1/data/" ++ m.dataPath) := by
  have hchars : ∀ c ∈ ("v1/data/" ++ m.dataPath).toList,
      inPath c = false ∧ c ≠ '\\' ∧ c ≠ '.' ∧ c ≠ '%' := by
    intro c hc
    rw [String.toList_append] at hc
    rcases List.mem_append.1 hc with hc | hc
    · have hall : ("v1/data/".toList.all fun c => !inPath c && c != '\\' && c != '.' && c != '%') = true := by
        decide
      simpa [and_assoc] using List.all_eq_true.1 hall c hc
    · rcases mem_intercalate hc with rfl | ⟨s, hs, hc⟩
      · decide
      · have hname := List.all_eq_true.1 (h s hs).2 c hc
        obtain ⟨hpath, hbackslash, hpoint, hpercent, -⟩ := plain_of_isNamePart hname
        exact ⟨hpath, hbackslash, hpoint, hpercent⟩
  constructor
  · exact fun c hc => ⟨(hchars c hc).1, (hchars c hc).2.1⟩
  · intro p hp
    cases p with
    | nil => decide
    | cons c cs =>
      obtain ⟨-, -, hpoint, hpercent⟩ := hchars c (mem_of_mem_parts hp List.mem_cons_self)
      rw [Client.points_cons_of_ne hpoint hpercent]
      simp

/-- The parts of the place where a package of names is found. -/
theorem parts_dataPath (h : m.package.IsNamed) (hne : m.package.path ≠ []) :
    parts (· = '/') m.dataPath.toList = m.package.path.map String.toList :=
  parts_intercalate_of_forall rfl hne fun s hs c hc =>
    decide_eq_false (plain_of_isNamePart (List.all_eq_true.1 (h s hs).2 c hc)).2.2.2.2

theorem dataPath_eq_empty (h : m.package.IsNamed) : m.dataPath = "" ↔ m.package.path = [] := by
  constructor
  · intro hempty
    by_contra hne
    have hparts := parts_dataPath h hne
    rw [hempty] at hparts
    -- the one part of nothing is no segment, since segments are not empty
    obtain ⟨s, hs⟩ := List.map_eq_singleton_iff.1 hparts.symm
    exact (h s (hs.1 ▸ List.mem_singleton_self s)).1 (String.toList_eq_nil_iff.1 hs.2)
  · intro hnil
    rw [dataPath, hnil]
    rfl

/-- Packages of names that are found in the same place are the same. -/
theorem path_eq_of_dataPath (h : m.package.IsNamed) (h' : m'.package.IsNamed)
    (heq : m.dataPath = m'.dataPath) : m.package.path = m'.package.path := by
  by_cases hne : m.package.path = []
  · rw [hne, (dataPath_eq_empty h').1 (heq ▸ (dataPath_eq_empty h).2 hne)]
  · have hne' : m'.package.path ≠ [] := fun hnil =>
      hne ((dataPath_eq_empty h).1 (heq.trans ((dataPath_eq_empty h').2 hnil)))
    have hparts := parts_dataPath h hne
    rw [heq, parts_dataPath h' hne'] at hparts
    exact (List.map_injective_iff.2 (fun _ _ hs => String.toList_injective hs) hparts).symm

end Module
end Rego

namespace RuleEngine.Client

variable {c : Client} {u : Url} {m : Rego.Module}

/-- The document of a package of names is under the base, and under the package. -/
theorem dataAddress_target (hu : u.IsBase c.base) (hm : m.package.IsNamed) :
    ∃ url, Url.ofText? (c.dataAddress m.dataPath) = .ok url ∧
      url.target = u.target ++ "v1/data/" ++ m.dataPath ++ if c.explain then "?explain=full" else "" := by
  have hmore : ∀ explain : Bool, let more := if explain then "?explain=full" else ""
      (more.toList.all fun c => decide (' ' < c)) = true ∧ more.toList.takeWhile Url.inPathText = [] ∧
      Url.marked "?" (Url.tail true more.toList).1 = more := by decide
  obtain ⟨hall, hmarked, htail⟩ := hmore c.explain
  have hchars := fun c hc => of_decide_eq_true (List.all_eq_true.1 hall c hc)
  obtain ⟨url, hread, -, -, htarget⟩ :=
    hu.target_append_query (Rego.Module.isPlain_dataPath hm) hchars hmarked
  refine ⟨url, ?_, ?_⟩
  · rw [dataAddress, show "/v1/data/" = "/" ++ "v1/data/" from rfl]
    simpa only [String.append_assoc] using hread
  · rw [htarget, htail]
    simp only [String.append_assoc]

end RuleEngine.Client

/-! ## Evaluations on a network -/

namespace Service

/-- The version of an id was evaluated at a target: a request to evaluate went there right after a request
about the policy of the id. -/
def EvaluatedAt (u : Url) (calls : List (Exchange wire)) (id target : String) : Prop :=
  ∃ before x y after, calls = before ++ x :: y :: after ∧
    x.request.url.target = u.target ++ "v1/policies/" ++ id ∧
    y.request.verb = .post ∧ y.request.url.target = target

variable {p : Peers} {u : Url} {svc : Service} {n : Traffic}

/-- **A version is evaluated at the document of its package.** -/
theorem Peers.Reaches.evaluatedAt (hu : u.IsBase p.engine.base) (hn : p.Reaches svc n) {id target : String}
    (he : EvaluatedAt u n.wire id target) : ∃ v m url, n.memory.version? id = some v ∧
      Rego.Module.ofSource? v.regoContent = .ok m ∧ Url.ofText? (p.engine.dataAddress m.dataPath) = .ok url ∧
      target = url.target := by
  obtain ⟨before, x, y, after, hwire, hpolicy, hpost, rfl⟩ := he
  rw [← List.singleton_append, ← List.append_assoc] at hwire
  obtain ⟨v, path, url, policyUrl, earlier, loading, held, package, address, target, policyTarget, loaded,
    hbefore⟩ := hn.exists_post hu hwire hpost
  -- the exchange right before the evaluation is the last one of the loading
  obtain ⟨front, w, rfl, hw⟩ := loaded.exists_last
  rw [← List.append_assoc] at hbefore
  obtain ⟨-, hlast⟩ := List.append_inj' hbefore rfl
  obtain rfl := List.head_eq_of_cons_eq hlast
  obtain rfl : v.id = id := (String.append_right_inj _).1 (policyTarget.symm.trans (hw.symm.trans hpolicy))
  cases hm : Rego.Module.ofSource? v.regoContent with
  | error e =>
    rw [Rego.packagePath?, hm] at package
    contradiction
  | ok m =>
    rw [Rego.packagePath?, hm] at package
    obtain rfl : m.dataPath = path := Except.ok.inj package
    exact ⟨v, m, url, held, hm, address, target⟩

/-- A package of names can be read off the target. -/
theorem Peers.Reaches.target_eq (hu : u.IsBase p.engine.base) (hn : p.Reaches svc n) {id target : String}
    (he : EvaluatedAt u n.wire id target) {v : PolicyVersion} (hv : n.memory.version? id = some v)
    {m : Rego.Module} (hm : Rego.Module.ofSource? v.regoContent = .ok m) (hnamed : m.package.IsNamed) :
    target = u.target ++ "v1/data/" ++ m.dataPath ++ if p.engine.explain then "?explain=full" else "" := by
  obtain ⟨v', m', url, hv', hm', hurl, rfl⟩ := hn.evaluatedAt hu he
  obtain rfl := Option.some.inj (hv.symm.trans hv')
  obtain rfl := Except.ok.inj (hm.symm.trans hm')
  obtain ⟨url', hurl', htarget⟩ := Client.dataAddress_target hu hnamed
  rw [Except.ok.inj (hurl.symm.trans hurl'), htarget]

/-! ## Two versions at one document -/

/-- What conveys the loading and the evaluation of a version shows where it was evaluated. -/
theorem evaluatedAt_of_conveys (hu : u.IsBase p.engine.base) {uuid : String} (huuid : Text.IsUuid uuid)
    {rego path : String} (hpath : Rego.packagePath? rego = .ok path) {url : Url}
    (hurl : Url.ofText? (p.engine.dataAddress path) = .ok url) {number : UInt32} {input : Json}
    {evaluation : Evaluation} (before : List (Exchange wire)) {loading evaluating : List (Exchange wire)}
    (hload : p.Conveys ⟨.load (Policy.versionId uuid number) rego, .ok ()⟩ loading)
    (hevaluate : p.Conveys ⟨.evaluate rego input, .ok evaluation⟩ evaluating) :
    EvaluatedAt u (before ++ loading ++ evaluating) (Policy.versionId uuid number) url.target := by
  obtain ⟨policyUrl, htarget, hloading⟩ := Peers.loading_of_conveys hu huuid hload
  obtain ⟨front, x, rfl, hx⟩ := hloading.exists_last
  obtain ⟨url', y, hurl', rfl, hy⟩ := Peers.evaluating_of_conveys hu hpath hevaluate
  obtain rfl := Except.ok.inj (hurl'.symm.trans hurl)
  refine ⟨before ++ front, x, y, [], by simp, hx.trans htarget, ?_, ?_⟩
  · rw [hy]
    rfl
  · rw [hy]
    exact Client.target_withoutUser url'

theorem EvaluatedAt.append {calls : List (Exchange wire)} {id target : String}
    (h : EvaluatedAt u calls id target) (after : List (Exchange wire)) :
    EvaluatedAt u (calls ++ after) id target := by
  obtain ⟨before, x, y, back, rfl, hrest⟩ := h
  exact ⟨before, x, y, back ++ after, by simp, hrest⟩

namespace First

/-- Two versions of one policy, with different sources of one package, are evaluated at one document. -/
theorem exists_shared : ∃ (n : Traffic) (v w : PolicyVersion) (target : String),
    peers.Reaches lenient n ∧ n.memory.version? v.id = some v ∧ n.memory.version? w.id = some w ∧
    v.id ≠ w.id ∧ v.regoContent = draft.regoContent ∧ w.regoContent = source ∧
    EvaluatedAt base n.wire v.id target ∧ EvaluatedAt base n.wire w.id target := by
  obtain ⟨_, s₁, hcreated, hs₁, -⟩ := exists_created
  obtain ⟨_, s₂, hupdated, hs₂⟩ := exists_revised hs₁
  have hn₁ : peers.Reaches lenient (s₁.withWire []) :=
    Peers.Reaches.inward (s := .initial) .initial (o := .createPolicy draft) rfl hcreated
  have hn₂ := hn₁.inward (o := .updatePolicy id _) rfl hupdated
  obtain ⟨url, hurl, -⟩ := Client.dataAddress_url isBase "open"
  obtain ⟨policy, found⟩ : ∃ policy, revised.policy? id = some policy := ⟨_, rfl⟩
  obtain ⟨v, hv, hvrego⟩ : ∃ v, revised.version? (Policy.versionId id 1) = some v ∧
    v.regoContent = draft.regoContent := ⟨_, rfl, rfl⟩
  obtain ⟨w, hw, hwrego⟩ : ∃ w, revised.version? (Policy.versionId id 2) = some w ∧
    w.regoContent = source := ⟨_, rfl, rfl⟩
  have hvpath := packagePath?_eq (.inl hvrego)
  have hwpath := packagePath?_eq (.inr hwrego)
  have huuid : Text.IsUuid id := by decide
  have huri : inquiry.resourceUri ≠ "" := by decide
  have hknown : (Resource.ResourceUri.ofText? inquiry.resourceUri).isSome = true := by decide
  have hvload := ends_load 1 (.inl rfl) v.regoContent
  have hwload := ends_load 2 (.inr rfl) w.regoContent
  obtain ⟨c₁, hvevaluate⟩ := ends_evaluate (.inl hvrego) (.object [("occurrences", .array [])])
  obtain ⟨c₂, hwevaluate⟩ := ends_evaluate (.inr hwrego) (.object [("occurrences", .array [])])
  obtain ⟨t₁, hn₃, ht₁⟩ := hn₂.evaluatePolicy hs₂ huri hknown huuid found hv ends_builds ends_related hvload
    hvevaluate
  obtain ⟨t₂, hn₄, ht₂⟩ := hn₃.evaluatePolicy ht₁ huri hknown huuid found hw ends_builds ends_related hwload
    hwevaluate
  obtain ⟨-, hvid⟩ := ht₂.holds.version?_eq_some.1 hv
  obtain ⟨-, hwid⟩ := ht₂.holds.version?_eq_some.1 hw
  refine ⟨_, v, w, url.target, hn₄, ?_, ?_, ?_, hvrego, hwrego, ?_, ?_⟩
  · rw [hvid]
    exact ht₂.version?_eq.trans hv
  · rw [hwid]
    exact ht₂.version?_eq.trans hw
  · rw [hvid, hwid]
    decide
  · rw [hvid]
    exact ((((evaluatedAt_of_conveys isBase huuid hvpath hurl _ hvload hvevaluate).append _).append _).append
      _).append _
  · rw [hwid]
    exact evaluatedAt_of_conveys isBase huuid hwpath hurl _ hwload hwevaluate

/-- The package of both sources is written in names. -/
theorem isNamed {rego : String} (hrego : rego = draft.regoContent ∨ rego = source) {m : Rego.Module}
    (hm : Rego.Module.ofSource? rego = .ok m) : m.package.IsNamed := by
  obtain ⟨m', hm', hpath⟩ := exists_module hrego
  obtain rfl := Except.ok.inj (hm'.symm.trans hm)
  rw [Rego.Package.IsNamed, hpath]
  decide

end First

/-! ## Sharing -/

/-- **Versions are evaluated at the documents of their packages, and share them only with versions of the
same package.**  In whatever is reached on a network:

* right before each request to evaluate there is a request about the policy of a version that is stored;
* what is evaluated right after a request about a version is the document of the package of this version;
* two versions whose packages are written in names are evaluated at the same target if and only if these
  packages are the same. -/
theorem evaluations_share_packages (hu : u.IsBase p.engine.base) (hn : p.Reaches svc n) :
    (∀ before x after, n.wire = before ++ x :: after → x.request.verb = .post →
      ∃ earlier w v, before = earlier ++ [w] ∧ n.memory.version? v.id = some v ∧
        w.request.url.target = u.target ++ "v1/policies/" ++ v.id) ∧
    (∀ id target, EvaluatedAt u n.wire id target → ∃ v m url, n.memory.version? id = some v ∧
      Rego.Module.ofSource? v.regoContent = .ok m ∧
      Url.ofText? (p.engine.dataAddress m.dataPath) = .ok url ∧ target = url.target) ∧
    ∀ id id' target target' v v' m m', EvaluatedAt u n.wire id target → EvaluatedAt u n.wire id' target' →
      n.memory.version? id = some v → n.memory.version? id' = some v' →
      Rego.Module.ofSource? v.regoContent = .ok m → Rego.Module.ofSource? v'.regoContent = .ok m' →
      m.package.IsNamed → m'.package.IsNamed → (target = target' ↔ m.package.path = m'.package.path) := by
  refine ⟨fun before x after hwire hpost => ?_, fun id target he => hn.evaluatedAt hu he,
    fun id id' target target' v v' m m' he he' hv hv' hm hm' hnamed hnamed' => ?_⟩
  · obtain ⟨v, _, _, _, earlier, _, held, -, -, -, policyTarget, loaded, hbefore⟩ :=
      hn.exists_post hu hwire hpost
    obtain ⟨front, w, rfl, hw⟩ := loaded.exists_last
    exact ⟨earlier ++ front, w, v, by rw [hbefore, List.append_assoc], held, hw.trans policyTarget⟩
  · rw [hn.target_eq hu he hv hm hnamed, hn.target_eq hu he' hv' hm' hnamed', String.append_left_inj,
      String.append_right_inj]
    exact ⟨Rego.Module.path_eq_of_dataPath hnamed hnamed', congrArg ("/".intercalate)⟩

/-- Two versions of the first policy are evaluated at the document of their package. -/
theorem evaluations_share_packages_first :
    ∃ (n : Traffic) (id id' target : String) (v v' : PolicyVersion) (m m' : Rego.Module),
      First.base.IsBase First.peers.engine.base ∧ First.peers.Reaches lenient n ∧ id ≠ id' ∧
      EvaluatedAt First.base n.wire id target ∧ EvaluatedAt First.base n.wire id' target ∧
      n.memory.version? id = some v ∧ Rego.Module.ofSource? v.regoContent = .ok m ∧
      n.memory.version? id' = some v' ∧ Rego.Module.ofSource? v'.regoContent = .ok m' ∧
      m.package.path = m'.package.path := by
  obtain ⟨n, v, w, target, hn, hv, hw, hne, hvrego, hwrego, hvat, hwat⟩ := First.exists_shared
  obtain ⟨-, hdocument, hshared⟩ := evaluations_share_packages First.isBase hn
  obtain ⟨v', m, -, hv', hm, -, -⟩ := hdocument v.id target hvat
  obtain ⟨w', m', -, hw', hm', -, -⟩ := hdocument w.id target hwat
  obtain rfl := Option.some.inj (hv.symm.trans hv')
  obtain rfl := Option.some.inj (hw.symm.trans hw')
  have hnamed := First.isNamed (.inl hvrego) hm
  have hnamed' := First.isNamed (.inr hwrego) hm'
  exact ⟨n, v.id, w.id, target, v, w, m, m', First.isBase, hn, hne, hvat, hwat, hv, hm, hw, hm',
    (hshared _ _ target target v w m m' hvat hwat hv hw hm hm' hnamed hnamed').1 rfl⟩

/-- Versions with different ids and different sources may be evaluated at one target: it is enough that the
package is the same. -/
theorem not_isolated_by_version : ¬ ∀ (p : Peers) (u : Url) (svc : Service) (n : Traffic),
    u.IsBase p.engine.base → p.Reaches svc n → ∀ (v w : PolicyVersion) (target : String),
    n.memory.version? v.id = some v → n.memory.version? w.id = some w → v.id ≠ w.id →
    v.regoContent ≠ w.regoContent → EvaluatedAt u n.wire v.id target →
    ¬ EvaluatedAt u n.wire w.id target := by
  intro hisolated
  obtain ⟨n, v, w, target, hn, hv, hw, hne, hvrego, hwrego, hvat, hwat⟩ := First.exists_shared
  have hsources : v.regoContent ≠ w.regoContent := by
    rw [hvrego, hwrego]
    decide
  exact hisolated First.peers First.base lenient n First.isBase hn v w target hv hw hne hsources hvat hwat

end Service
end Gatehouse
