import Gatehouse.Proofs.Resource.Selection
import Gatehouse.Proofs.Service.Surroundings
import Gatehouse.Resource.Resolution
import Mathlib.Data.List.Basic

/-!
# How a resource is resolved

The occurrence store is asked twice, and the second question is made of the answer to the first.  An
address that got lost in between would hide what is known about it from every policy.

1. **Lists of what is seen** (`ListsSeen`).  Texts are listed in the order in which they are first seen, each
   once, and none that is empty.  Nothing is said of how such a list is made, and there is only one
   (`listsSeen_iff`).
2. **The crux** (`ListsSeen.concat`) is one more text.  Where a text was seen first does not change by what is
   seen later, so the list only has to grow at its end.
3. **Clauses** (`Filter.Expr.clauses`).  The second question is read back as one test for each address.
4. **Resolving** (`Resolving`).  What is asked and answered on each of the three ways to an end.
-/

namespace Gatehouse

/-- The parts of an expression that any document needs to satisfy only one of. -/
def Filter.Expr.clauses : Filter.Expr → List Filter.Expr
  | .or e f => e.clauses ++ f.clauses
  | e => [e]

namespace Resource

open Service Occurrence Filter

/-! ## Lists of what is seen -/

/-- The texts that are seen, in the order in which they are first seen, without the empty text. -/
structure ListsSeen (seen found : List String) : Prop where
  mem : ∀ text, text ∈ found ↔ text ∈ seen ∧ text ≠ ""
  order : found.Pairwise fun a b => seen.idxOf a < seen.idxOf b

namespace ListsSeen

variable {seen found found' : List String}

theorem nil : ListsSeen [] [] := ⟨by simp, .nil⟩

/-- No text is listed twice. -/
theorem nodup (h : ListsSeen seen found) : found.Nodup := by
  refine h.order.imp ?_
  intro a b hlt heq
  rw [heq] at hlt
  exact Nat.lt_irrefl _ hlt

theorem unique (h : ListsSeen seen found) (h' : ListsSeen seen found') : found = found' := by
  have hperm : found.Perm found' := by
    rw [List.perm_ext_iff_of_nodup h.nodup h'.nodup]
    intro text
    rw [h.mem, h'.mem]
  refine hperm.eq_of_pairwise ?_ h.order h'.order
  intro a b _ _ hab hba
  omega

/-- **One more text is seen.** -/
theorem concat (h : ListsSeen seen found) (text : String) :
    ListsSeen (seen ++ [text]) (addNew found text) := by
  have hkept : ∀ a ∈ found, (seen ++ [text]).idxOf a = seen.idxOf a := by
    intro a ha
    exact List.idxOf_append_of_mem ((h.mem a).1 ha).1
  have horder : found.Pairwise fun a b => (seen ++ [text]).idxOf a < (seen ++ [text]).idxOf b := by
    refine h.order.imp_of_mem ?_
    intro a b ha hb hlt
    rwa [hkept a ha, hkept b hb]
  unfold addNew
  split
  · -- it is empty, or it was seen before
    rename_i hold
    have hold' : text = "" ∨ text ∈ found := by simpa using hold
    refine ⟨fun a => ?_, horder⟩
    rw [h.mem, List.mem_append, List.mem_singleton]
    constructor
    · rintro ⟨ha, hne⟩
      exact ⟨.inl ha, hne⟩
    · rintro ⟨ha | rfl, hne⟩
      · exact ⟨ha, hne⟩
      · exact (h.mem a).1 (hold'.resolve_left hne)
  · rename_i hnew
    obtain ⟨hne, hnot⟩ : text ≠ "" ∧ text ∉ found := by simpa using hnew
    have hunseen : text ∉ seen := fun hin => hnot ((h.mem text).2 ⟨hin, hne⟩)
    constructor
    · intro a
      rw [List.mem_append, List.mem_append, List.mem_singleton, h.mem]
      constructor
      · rintro (⟨ha, hane⟩ | rfl)
        · exact ⟨.inl ha, hane⟩
        · exact ⟨.inr rfl, hne⟩
      · rintro ⟨ha | rfl, hane⟩
        · exact .inl ⟨ha, hane⟩
        · exact .inr rfl
    · rw [List.pairwise_append]
      refine ⟨horder, List.pairwise_singleton _ _, ?_⟩
      intro a ha b hb
      obtain rfl := List.mem_singleton.1 hb
      have hbefore : seen.idxOf a < seen.length := List.idxOf_lt_length_of_mem ((h.mem a).1 ha).1
      rw [hkept a ha, List.idxOf_append_of_notMem hunseen]
      omega

theorem foldl_addNew (h : ListsSeen seen found) (more : List String) :
    ListsSeen (seen ++ more) (more.foldl addNew found) := by
  induction more generalizing seen found with
  | nil => simpa using h
  | cons text more ih => simpa using ih (h.concat text)

/-- What is seen first is listed first. -/
theorem head?_eq {text : String} (h : ListsSeen (text :: seen) found) (hne : text ≠ "") :
    found.head? = some text := by
  have hmem : text ∈ found := (h.mem text).2 ⟨List.mem_cons_self, hne⟩
  cases found with
  | nil => contradiction
  | cons a rest =>
    rcases List.mem_cons.1 hmem with rfl | hlater
    · rfl
    · -- nothing is seen before the first text
      have hlt := List.rel_of_pairwise_cons h.order hlater
      rw [List.idxOf_cons_self] at hlt
      omega

end ListsSeen

/-- **There is one list of what is seen**, and it is made by adding what is new at the end. -/
theorem listsSeen_iff {seen found : List String} : ListsSeen seen found ↔ found = seen.foldl addNew [] := by
  have hown : ListsSeen seen (seen.foldl addNew []) := ListsSeen.nil.foldl_addNew seen
  constructor
  · intro h
    exact h.unique hown
  · rintro rfl
    exact hown

/-- The relatives of a resource are the addresses that are seen, the resource first. -/
theorem relatives_eq {uri : String} (huri : uri ≠ "") (builds : List Occurrence) :
    relatives uri builds = (uri :: builds.flatMap addressesOf).foldl addNew [] := by
  have hfirst : addNew [] uri = [uri] := by simp [addNew, huri]
  rw [relatives, List.foldl_cons, hfirst]

/-! ## Clauses -/

theorem clauses_foldl_or (e : Expr) (uris : List String) :
    (uris.foldl (fun e v => .or e (isAt v)) e).clauses = e.clauses ++ uris.map isAt := by
  induction uris generalizing e with
  | nil => simp
  | cons v uris ih =>
    rw [List.foldl_cons, ih, Expr.clauses, List.append_assoc]
    rfl

/-- The filter on any of some addresses has one clause for each of them. -/
theorem clauses_isAtAny (uri : String) (uris : List String) :
    (isAtAny uri uris).clauses = (uri :: uris).map isAt := by
  rw [isAtAny, clauses_foldl_or]
  rfl

/-! ## Resolving -/

/-- What is asked and answered to resolve a resource, and what comes of it.  If the builds cannot be listed,
nothing else is asked. -/
inductive Resolving (uri : String) : List (Exchange effects) → Except ServiceError Resolved → Prop
  | noBuilds (e : ListError) :
      Resolving uri [⟨.listOccurrences (question (buildsOf uri)), .error e⟩]
        (.error (.internal "error listing build occurrences" (.occurrences e)))
  | noRelated {builds : ListResponse} {uris : List String} (e : ListError)
      (seen : ListsSeen (uri :: builds.occurrences.flatMap addressesOf) uris) :
      Resolving uri
        [⟨.listOccurrences (question (buildsOf uri)), .ok builds⟩,
         ⟨.listOccurrences (question (onAnyOf uris)), .error e⟩]
        (.error (.internal "error listing occurrences" (.occurrences e)))
  | resolved {builds : ListResponse} {uris names : List String} (related : ListResponse)
      (seen : ListsSeen (uri :: builds.occurrences.flatMap addressesOf) uris)
      (named : ListsSeen
        (((builds.occurrences.flatMap builtArtifacts).filter fun a => a.id = uri).flatMap Artifact.names) names) :
      Resolving uri
        [⟨.listOccurrences (question (buildsOf uri)), .ok builds⟩,
         ⟨.listOccurrences (question (onAnyOf uris)), .ok related⟩]
        (.ok ⟨⟨uri, names, none⟩, related.occurrences, related.nextPageToken⟩)

section Resolve

variable {uri : String} {s t : State} {r : Except ServiceError Resolved}

/-- The ends of resolving, question by question. -/
theorem ends_resolve (huri : uri ≠ "") :
    Ends surroundings (resolve uri) s r t ↔
      ∃ calls, t = ⟨s.memory, s.log ++ calls⟩ ∧ Resolving uri calls r := by
  have hensure : Ends surroundings (resolve uri) s r t ↔ Ends surroundings (do
      let builds ← listOccurrences "error listing build occurrences" (question (buildsOf uri))
      let related ← listOccurrences "error listing occurrences"
        (question (onAnyOf (relatives uri builds.occurrences)))
      return { resourceVersion := ⟨uri, publishedNames uri builds.occurrences, none⟩
               occurrences := related.occurrences
               nextPageToken := related.nextPageToken }) s r t := by
    have hnonempty : (!uri.isEmpty) = true := by simpa using huri
    rw [resolve, hnonempty]
    rfl
  rw [hensure]
  simp only [ends_listOccurrences_bind, ends_pure, State.after_listOccurrences, relatives_eq huri,
    List.append_assoc, List.singleton_append]
  constructor
  · rintro (⟨builds, ⟨related, rfl, rfl⟩ | ⟨e, rfl, rfl⟩⟩ | ⟨e, rfl, rfl⟩)
    · exact ⟨_, rfl, .resolved related (listsSeen_iff.2 rfl) (listsSeen_iff.2 rfl)⟩
    · exact ⟨_, rfl, .noRelated e (listsSeen_iff.2 rfl)⟩
    · exact ⟨_, rfl, .noBuilds e⟩
  · rintro ⟨calls, rfl, hcalls⟩
    cases hcalls with
    | noBuilds e => exact .inr ⟨e, rfl, rfl⟩
    | @noRelated builds uris e seen =>
      obtain rfl := listsSeen_iff.1 seen
      exact .inl ⟨builds, .inr ⟨e, rfl, rfl⟩⟩
    | @resolved builds uris names related seen named =>
      obtain rfl := listsSeen_iff.1 seen
      obtain rfl := listsSeen_iff.1 named
      exact .inl ⟨builds, .inl ⟨related, rfl, rfl⟩⟩

end Resolve

/-- **A resource is asked for together with each of its relatives.**

* The builds are asked for first.  If they come, there is one more question, and otherwise there is none; an
  answer that does not come is an internal failure.
* The second question is for the list of the resource, the resources of the builds and what they made, in
  the order in which these are first seen.  The resource comes first, and the filter has one clause for each.
* The names are those of the artifacts that are the resource, in the order in which they are first seen.
* There is one such list of whatever is seen. -/
theorem resolve_asks_twice {uri : String} (huri : uri ≠ "") :
    (∀ s r t, Ends surroundings (resolve uri) s r t ↔
      ∃ calls, t = ⟨s.memory, s.log ++ calls⟩ ∧ Resolving uri calls r) ∧
    (∀ addresses uris, ListsSeen (uri :: addresses) uris → uris.head? = some uri ∧
      ∃ e, Expr.ofText? (onAnyOf uris) = .ok e ∧ e.clauses = uris.map isAt) ∧
    ∀ seen, ∃! found, ListsSeen seen found := by
  refine ⟨fun s r t => ends_resolve huri, fun addresses uris h => ?_, fun seen => ?_⟩
  · have hfirst := h.head?_eq huri
    obtain ⟨rest, rfl⟩ := List.head?_eq_some_iff.1 hfirst
    exact ⟨hfirst, _, ofText?_onAnyOf uri rest, clauses_isAtAny uri rest⟩
  · exact ⟨_, listsSeen_iff.2 rfl, fun found h => listsSeen_iff.1 h⟩

/-- A build on the resource itself, which it also made, and under one name twice. -/
theorem resolve_asks_twice_ownBuild :
    let uri := "git://a@1"
    let artifacts : List Artifact := [⟨"b", "", ["x"]⟩, ⟨uri, "", ["v1", "", "v2", "v1"]⟩, ⟨"", "", []⟩]
    let build : Occurrence := ⟨"", ⟨uri, []⟩, "", .build, none, none, some ⟨some ⟨"", artifacts, []⟩, []⟩, []⟩
    uri ≠ "" ∧ ∃ calls, Resolving uri calls (.ok ⟨⟨uri, ["v1", "v2"], none⟩, [], "more"⟩) ∧
      calls = [⟨.listOccurrences (question (buildsOf uri)), .ok ⟨[build, build], ""⟩⟩,
        ⟨.listOccurrences (question (onAnyOf [uri, "b"])), .ok ⟨[], "more"⟩⟩] := by
  intro uri artifacts build
  have huri : uri ≠ "" := by decide
  have he : Ends surroundings (resolve uri) .initial (.ok ⟨⟨uri, ["v1", "v2"], none⟩, [], "more"⟩) _ :=
    ends_ensure_bind_ok.2 ⟨by decide, ends_listOccurrences_bind_ok.2 ⟨⟨[build, build], ""⟩,
      ends_listOccurrences_bind_ok.2 ⟨⟨[], "more"⟩, ends_pure.2 ⟨rfl, rfl⟩⟩⟩⟩
  obtain ⟨calls, ht, hcalls⟩ := ((resolve_asks_twice huri).1 _ _ _).1 he
  exact ⟨huri, calls, hcalls, (congrArg State.log ht).symm⟩

end Resource
end Gatehouse
