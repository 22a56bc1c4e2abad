import Gatehouse.Proofs.Http.Segments
import Gatehouse.Proofs.Rego.Depth
import Gatehouse.Proofs.RuleEngine.Protocol

/-!
# Which package is evaluated

The client puts the segments of a package behind the address of the rule engine as they are, with slashes
in between.  A segment may be any text between quotes, so what is asked for need not be the package.

1. **Paths** (`Module.dataPath_eq_iff`).  A slash in a segment cannot be told from one between segments.
2. **Addressable packages** (`IsAddressable`): those whose segments hold nothing that means something in an
   address.  These and no others are spelled by the target (`Client.dataAddress_spells`).
3. **Evaluations** (`Client.PostsTo`).  Whatever the rule engine replies, there is one request, and so one
   target.
-/

namespace Gatehouse

open Http Text Percent

/-! ## Paths -/

namespace Rego

open Gatehouse.Rego.Parser

theorem yields_module_package : Yields module fun m => m.package.path ≠ [] := by
  have hpackage : Yields package fun p => p.path ≠ [] :=
    .after fun _ => .after fun _ => .after fun first => .after fun rest => yields_pure (List.cons_ne_nil first rest)
  refine .after fun _ => .after fun found => .ite (hpackage.bind fun p hp => ?_) (yields_fail _)
  exact .after fun _ => .after fun _ => yields_pure hp

theorem Outcome.toExcept_eq_ok {α : Type} {o : Outcome α} {a : α} : o.toExcept = .ok a ↔ o = .done a := by
  cases o <;> simp [toExcept]

/-- What the parser yields holds of what is read of a source. -/
theorem Parser.Yields.of_ofSource? {holds : Module → Prop} (h : Yields module holds) {source : String} {m : Module}
    (hm : Module.ofSource? source = .ok m) : holds m := by
  cases htokens : tokenize source with
  | error e =>
    rw [ofSource?_of_error htokens] at hm
    contradiction
  | ok tokens =>
    rw [ofSource?_of_ok htokens, Outcome.toExcept_eq_ok] at hm
    exact h _ m hm

/-- A package has a segment. -/
theorem Module.path_ne_nil {source : String} {m : Module} (h : Module.ofSource? source = .ok m) :
    m.package.path ≠ [] := yields_module_package.of_ofSource? h

/-- Two packages have one path if they are the same once all slashes are taken for separators. -/
theorem Module.dataPath_eq_iff {m m' : Module} (hm : m.package.path ≠ []) (hm' : m'.package.path ≠ []) :
    m.dataPath = m'.dataPath ↔
      (m.package.path.flatMap fun s => parts (· = '/') s.toList) =
        m'.package.path.flatMap fun s => parts (· = '/') s.toList := by
  rw [← parts_intercalate (by decide) hm, ← parts_intercalate (by decide) hm']
  constructor
  · exact fun h => congrArg (fun path : String => parts (· = '/') path.toList) h
  · intro h
    have htext (path : String) : (Path.segments ((parts (· = '/') path.toList).map String.ofList)).toText =
        "/" ++ path := by
      rw [Path.toText_parts (by simp), String.ofList_toList]
    exact (String.append_right_inj "/").1 (htext m.dataPath ▸ htext m'.dataPath ▸ h ▸ rfl)

/-- What a source is read as has the package that is written there. -/
theorem exists_module (source : String) (ss : List String)
    (h : (Module.ofSource? source).toOption.map (fun m => m.package.path) = some ss) :
    ∃ m, Module.ofSource? source = .ok m ∧ m.package.path = ss := by
  cases hm : Module.ofSource? source with
  | error e =>
    rw [hm] at h
    contradiction
  | ok m =>
    rw [hm] at h
    exact ⟨m, rfl, Option.some.inj h⟩

/-- **Packages that differ may have one path.** -/
theorem not_forall_packagePath_ne :
    ¬ ∀ rego rego' m m', Module.ofSource? rego = .ok m → Module.ofSource? rego' = .ok m' →
      m.package.path ≠ m'.package.path → packagePath? rego ≠ packagePath? rego' := by
  intro h
  obtain ⟨m, hm, hpath⟩ := exists_module "package a[\"b/c\"]\n" ["a", "b/c"] (by decide +kernel)
  obtain ⟨m', hm', hpath'⟩ := exists_module "package a.b.c\n" ["a", "b", "c"] (by decide +kernel)
  refine h _ _ m m' hm hm' (by rw [hpath, hpath']; decide) ?_
  rw [packagePath?, packagePath?, hm, hm']
  show Except.ok m.dataPath = Except.ok m'.dataPath
  rw [Module.dataPath, Module.dataPath, hpath, hpath']
  rfl

end Rego

namespace RuleEngine

/-! ## Addressable packages -/

/-- The segments hold nothing that means something in an address: neither slashes nor the marks of a query or a
fragment, no line breaks, no segment `.` or `..`, no escapes, and no blank at the end of the address. -/
structure IsAddressable (explain : Bool) (ss : List String) : Prop where
  plain : ∀ s ∈ ss, ∀ c ∈ s.toList, c ∉ ['/', '\\', '?', '#', '\t', '\n', '\r']
  points : ∀ s ∈ ss, s ≠ "." ∧ s ≠ ".."
  unescaped : ∀ s ∈ ss, IsUnescaped s.toList
  finish : explain = true ∨ ∀ s c, ss.getLast? = some s → s.toList.getLast? = some c → ' ' < c

/-- Without escapes points are written as points. -/
theorem eq_replicate_of_points {cs : List Char} {n : Nat} (hcs : IsUnescaped cs) (h : Path.points cs = some n) :
    cs = List.replicate n '.' := by
  induction cs using Path.points.induct generalizing n with
  | case1 =>
    obtain rfl := Option.some.inj h
    rfl
  | case2 cs ih =>
    rw [Path.points] at h
    obtain ⟨k, hk, rfl⟩ := Option.map_eq_some_iff.1 h
    rw [List.replicate_succ, ← ih hcs.tail hk]
  | case3 cs => rcases hcs [] '2' 'e' cs rfl with hnone | hnone <;> exact absurd hnone (by decide)
  | case4 cs => rcases hcs [] '2' 'E' cs rfl with hnone | hnone <;> exact absurd hnone (by decide)
  | case5 cs => simp_all [Path.points]

theorem not_isDots_iff {s : String} (h : IsUnescaped s.toList) :
    ¬Path.IsDots s.toList ↔ s ≠ "." ∧ s ≠ ".." := by
  constructor
  · intro hdots
    constructor
    · rintro rfl
      exact hdots (.inl rfl)
    · rintro rfl
      exact hdots (.inr rfl)
  · rintro ⟨hone, htwo⟩ (hpoints | hpoints)
    · exact hone (String.toList_inj.1 (eq_replicate_of_points h hpoints))
    · exact htwo (String.toList_inj.1 (eq_replicate_of_points h hpoints))

/-- A path ends with a blank if its last segment does. -/
theorem getLast?_intercalate {ss : List String} :
    (∀ c, ("/".intercalate ss).toList.getLast? = some c → ' ' < c) ↔
      ∀ s c, ss.getLast? = some s → s.toList.getLast? = some c → ' ' < c := by
  induction ss with
  | nil => simp
  | cons s ss ih =>
    cases ss with
    | nil =>
      rw [String.intercalate_singleton]
      exact ⟨fun h t c ht => Option.some.inj ht ▸ h c, fun h c => h s c rfl⟩
    | cons t ss =>
      rw [List.getLast?_cons_cons, ← ih, toList_intercalate_cons_cons, List.getLast?_append,
        List.getLast?_cons]
      cases hlast : ("/".intercalate (t :: ss)).toList.getLast? with
      | none => simp
      | some d => simp

/-- What the client puts behind the path. -/
def queryText (explain : Bool) : String := if explain then "?explain=full" else ""

theorem pathLeft_queryText_sublist (explain : Bool) (cs : List Char) :
    (Url.pathLeft (cs ++ (queryText explain).toList)).Sublist cs := by
  cases explain with
  | true =>
    show (Url.pathLeft (cs ++ '?' :: "explain=full".toList)).Sublist cs
    rw [Url.pathLeft_question]
    exact (List.takeWhile_sublist _).trans List.filter_sublist
  | false =>
    show (Url.pathLeft (cs ++ [])).Sublist cs
    rw [List.append_nil]
    exact Url.pathLeft_sublist cs

theorem pathLeft_queryText_eq_iff {explain : Bool} {cs : List Char} :
    Url.pathLeft (cs ++ (queryText explain).toList) = cs ↔
      (∀ c ∈ cs, c ∉ ['?', '#', '\t', '\n', '\r']) ∧
        (explain = true ∨ ∀ c, cs.getLast? = some c → ' ' < c) := by
  cases explain with
  | true =>
    show Url.pathLeft (cs ++ '?' :: "explain=full".toList) = cs ↔ _
    rw [Url.pathLeft_question, Url.takeWhile_filter_eq_iff]
    simp only [Url.isKept_iff, true_or, and_true]
  | false =>
    show Url.pathLeft (cs ++ []) = cs ↔ _
    rw [List.append_nil, Url.pathLeft_eq_iff]
    simp only [Bool.false_eq_true, false_or]

/-- A package is addressable if nothing is lost of its path on the way. -/
theorem isAddressable_iff {explain : Bool} {ss : List String} :
    IsAddressable explain ss ↔
      Url.pathLeft (("/".intercalate ss).toList ++ (queryText explain).toList) = ("/".intercalate ss).toList ∧
        ∀ s ∈ ss, (∀ c ∈ s.toList, Url.isSlash true c = false) ∧ ¬Path.IsDots s.toList ∧
          IsUnescaped s.toList := by
  rw [pathLeft_queryText_eq_iff, getLast?_intercalate]
  constructor
  · intro h
    refine ⟨⟨fun c hc => ?_, h.finish⟩, fun s hs => ⟨fun c hc => ?_, ?_, h.unescaped s hs⟩⟩
    · rcases mem_intercalate hc with rfl | ⟨s, hs, hc⟩
      · decide
      · have hplain := h.plain s hs c hc
        simp only [List.mem_cons, not_or] at hplain ⊢
        exact hplain.2.2
    · have hplain := h.plain s hs c hc
      simp only [List.mem_cons, not_or] at hplain
      simp [Url.isSlash, hplain.1, hplain.2.1]
    · exact (not_isDots_iff (h.unescaped s hs)).2 (h.points s hs)
  · rintro ⟨⟨hkept, hfinish⟩, hss⟩
    refine ⟨fun s hs c hc => ?_, fun s hs => ?_, fun s hs => (hss s hs).2.2, hfinish⟩
    · have hslash := (hss s hs).1 c hc
      have hmarks := hkept c (mem_intercalate_of_mem hs hc)
      simp only [Url.isSlash, Bool.true_and, Bool.or_eq_false_iff, decide_eq_false_iff_not] at hslash
      simp only [List.mem_cons, not_or] at hmarks ⊢
      exact ⟨hslash.1, hslash.2, hmarks⟩
    · exact (not_isDots_iff (hss s hs).2.2).1 (hss s hs).2.1

namespace Client

variable {c : Client} {u : Url}

/-- **The target spells the addressable packages**, and no others. -/
theorem dataAddress_spells (hu : u.IsBase c.base) {ss : List String} (hne : ss ≠ []) :
    ∃ url, Url.ofText? (c.dataAddress ("/".intercalate ss)) = .ok url ∧
      (∀ verb content?, Request.isSendable ⟨verb, url, userAgent, content?⟩ = true) ∧
      (Url.Spells (u.target ++ "v1/data/") url.target ss ↔ IsAddressable c.explain ss) := by
  obtain ⟨before, hbefore, htarget, hread⟩ := hu.exists_settled
  obtain ⟨url, query?, hurl, hscheme, hauthority, hsettled⟩ :=
    hread ("v1/data/" ++ ("/".intercalate ss ++ queryText c.explain))
  refine ⟨url, ?_, isSendable_of_base hu hscheme hauthority, ?_⟩
  · rw [dataAddress, show "/v1/data/" = "/" ++ "v1/data/" from rfl]
    simpa only [String.append_assoc, queryText] using hurl
  · let kept := "data".toList :: "v1".toList :: before
    have hkept : ∀ p ∈ kept, '/' ∉ p := by
      intro p hp
      rcases List.mem_cons.1 hp with rfl | hp
      · decide
      · rcases List.mem_cons.1 hp with rfl | hp
        · decide
        · exact hbefore p hp
    have hfront : u.target ++ "v1/data/" = Url.asPath kept.reverse ++ "/" := by
      have hreverse : kept.reverse = before.reverse ++ ["v1".toList, "data".toList] := by simp [kept]
      rw [htarget, hreverse, Url.asPath_append, String.append_assoc, String.append_assoc]
      rfl
    have hleft : Url.pathLeft ("v1/data/" ++ ("/".intercalate ss ++ queryText c.explain)).toList =
        "v1/data".toList ++
          '/' :: Url.pathLeft (("/".intercalate ss).toList ++ (queryText c.explain).toList) := by
      have hlist : ("v1/data/" ++ ("/".intercalate ss ++ queryText c.explain)).toList =
          "v1/data".toList ++ '/' :: (("/".intercalate ss).toList ++ (queryText c.explain).toList) := by
        rw [String.toList_append, String.toList_append]
        rfl
      rw [hlist, Url.pathLeft, Url.trimmedEnd_append_cons (by decide)]
      rfl
    rw [hfront, hsettled, hleft, parts_append_separator (by decide),
      Path.settle_append _ _ (parts_ne_nil _ _)]
    exact (Url.spells_settle_iff hkept query? hne (pathLeft_queryText_sublist _ _)).trans isAddressable_iff.symm

/-! ## Evaluations -/

/-- Whatever the rule engine replies, evaluating the source is one request, and it is to post to this target. -/
def PostsTo (c : Client) (rego target : String) : Prop :=
  ∀ input log r log', Ends anyPeer (c.evaluate rego input) log r log' →
    ∃ q reply, log' = log ++ [⟨q, reply⟩] ∧ q.verb = .post ∧ q.url.target = target

theorem PostsTo.unique {rego target target' : String} (h : c.PostsTo rego target) (h' : c.PostsTo rego target') :
    target = target' := by
  have hends := ends_peer (fun _ _ => .error "") (c.evaluate rego .null) []
  obtain ⟨q, reply, hlog, -, rfl⟩ := h _ _ _ _ hends
  obtain ⟨q', reply', hlog', -, rfl⟩ := h' _ _ _ _ hends
  rw [hlog] at hlog'
  simp only [List.nil_append, List.cons.injEq, Exchange.mk.injEq, and_true] at hlog'
  rw [hlog'.1]

/-- Evaluating a source that is a module posts to one target. -/
theorem exists_postsTo (hu : u.IsBase c.base) {rego : String} {m : Rego.Module}
    (hm : Rego.Module.ofSource? rego = .ok m) : ∃ target, c.PostsTo rego target ∧
      (Url.Spells (u.target ++ "v1/data/") target m.package.path ↔ IsAddressable c.explain m.package.path) := by
  obtain ⟨url, hurl, hsendable, hspells⟩ := dataAddress_spells hu (Rego.Module.path_ne_nil hm)
  refine ⟨url.target, fun input log r log' he => ?_, hspells⟩
  have hpath : Rego.packagePath? rego = .ok m.dataPath := by
    rw [Rego.packagePath?, hm]
    rfl
  obtain ⟨calls, rfl, hcalls⟩ := ends_evaluate hpath hurl hsendable he
  obtain ⟨reply, rfl⟩ := hcalls.exists_reply
  exact ⟨_, reply, rfl, rfl, target_withoutUser url⟩

/-- **Where packages are evaluated.**  The source of a package is posted to one target, and this target spells
the package if and only if the package is addressable.  Two packages have one path if they are the same once
slashes in segments are taken for separators; addressable packages that differ are evaluated at different
targets. -/
theorem evaluate_addresses (hu : u.IsBase c.base) :
    (∀ rego m, Rego.Module.ofSource? rego = .ok m → ∃ target, c.PostsTo rego target ∧
      (Url.Spells (u.target ++ "v1/data/") target m.package.path ↔ IsAddressable c.explain m.package.path)) ∧
    ∀ rego rego' m m', Rego.Module.ofSource? rego = .ok m → Rego.Module.ofSource? rego' = .ok m' →
      (Rego.packagePath? rego = Rego.packagePath? rego' ↔
        (m.package.path.flatMap fun s => parts (· = '/') s.toList) =
          m'.package.path.flatMap fun s => parts (· = '/') s.toList) ∧
      (IsAddressable c.explain m.package.path → IsAddressable c.explain m'.package.path →
        m.package.path ≠ m'.package.path →
        ∀ target target', c.PostsTo rego target → c.PostsTo rego' target' → target ≠ target') := by
  refine ⟨fun rego m hm => exists_postsTo hu hm, fun rego rego' m m' hm hm' => ⟨?_, ?_⟩⟩
  · rw [← Rego.Module.dataPath_eq_iff (Rego.Module.path_ne_nil hm) (Rego.Module.path_ne_nil hm'),
      Rego.packagePath?, Rego.packagePath?, hm, hm']
    exact ⟨Except.ok.inj, congrArg Except.ok⟩
  · intro haddressable haddressable' hne target target' hposts hposts' heq
    obtain ⟨t, ht, hspells⟩ := exists_postsTo hu hm
    obtain ⟨t', ht', hspells'⟩ := exists_postsTo hu hm'
    rw [ht.unique hposts] at hspells
    rw [ht'.unique hposts', ← heq] at hspells'
    exact hne ((hspells.2 haddressable).unique (hspells'.2 haddressable'))

/-- A quoted segment with a blank is spelled, one with a slash is not. -/
theorem evaluate_addresses_quoted :
    let c : Client := ⟨"http://opa:8181", false⟩
    let u : Url := ⟨"http", some { host := .name "opa", service? := some 8181 }, .segments [""], none, none⟩
    u.IsBase c.base ∧
      (∃ target, c.PostsTo "package a[\"b c\"]\n" target ∧
        Url.Spells (u.target ++ "v1/data/") target ["a", "b c"]) ∧
      ∃ target, c.PostsTo "package a[\"b/c\"]\n" target ∧
        ¬Url.Spells (u.target ++ "v1/data/") target ["a", "b/c"] := by
  intro c u
  have hu : u.IsBase c.base := ⟨by decide +kernel, .inl rfl, by decide +kernel, rfl, rfl⟩
  obtain ⟨hposts, -⟩ := evaluate_addresses hu
  refine ⟨hu, ?_, ?_⟩
  · obtain ⟨m, hm, hpath⟩ := Rego.exists_module "package a[\"b c\"]\n" ["a", "b c"] (by decide +kernel)
    obtain ⟨target, htarget, hspells⟩ := hposts _ m hm
    rw [hpath] at hspells
    refine ⟨target, htarget, hspells.2 ⟨?_, by decide, ?_, .inr ?_⟩⟩
    · intro s hs c hc
      have hall : (["a", "b c"].all fun s => s.toList.all fun c =>
          decide (c ∉ ['/', '\\', '?', '#', '\t', '\n', '\r'])) = true := by decide
      exact of_decide_eq_true (List.all_eq_true.1 (List.all_eq_true.1 hall s hs) c hc)
    · intro s hs
      have hpercent : ∀ s ∈ ["a", "b c"], '%' ∉ s.toList := by decide
      exact isUnescaped_of_notMem (hpercent s hs)
    · rintro s d hs hd
      obtain rfl := Option.some.inj hs
      obtain rfl := Option.some.inj hd
      decide
  · obtain ⟨m, hm, hpath⟩ := Rego.exists_module "package a[\"b/c\"]\n" ["a", "b/c"] (by decide +kernel)
    obtain ⟨target, htarget, hspells⟩ := hposts _ m hm
    rw [hpath] at hspells
    exact ⟨target, htarget, fun h => (hspells.1 h).plain "b/c" (by decide) '/' (by decide) (by decide)⟩

end Client
end RuleEngine
end Gatehouse
