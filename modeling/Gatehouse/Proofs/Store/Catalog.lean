import Gatehouse.Proofs.Effect.Run
import Gatehouse.Proofs.Store.Bulk
import Gatehouse.Proofs.Store.Paging

/-!
# The store is a catalog of lists

A client of the store cannot see turns, the counter, or how entries are kept.  Whatever it asks, in
whatever order, it is answered as by a `Catalog`: a list of documents under each name, in the order of
their creation, and nothing else.

1. **Demands** are the calls of the service, and the two reads that it has no use for itself: several
   documents at once, and how many there are.
2. **The catalog** (`Catalog.answer`) knows no turns.  A creation goes to the end of a list, an update
   stays in its place, a deletion closes the gap, and a list that was never written is empty.
3. **The crux** (`documents_meet`).  `documents` takes a store to its catalog, and one demand does the
   same to both.  The invariant is `IsOrdered`, for each index and the one counter that they share.
4. **Runs.**  `serve` makes demands one after the other.  By induction the answers are those of the
   catalog (`serve_documents`), where it is plain that one list is no business of another
   (`Catalog.serve_filter`).
-/

namespace Gatehouse.Store

/-! ## Demands -/

/-- The name of the index that a call is about. -/
def Call.index : Call → String
  | get name _ => name
  | search name _ => name
  | searchAll name _ => name
  | write name _ => name
  | bulk name _ => name

/-- What a client may ask of the store. -/
inductive Demand where
  | call (c : Call)
  /-- The documents of several ids, each in its place. -/
  | getAll (index : String) (ids : List String)
  /-- The number of documents. -/
  | size (index : String)

namespace Demand

/-- What is answered. -/
abbrev Answer : Demand → Type
  | call c => Except StoreError c.Answer
  | getAll .. => List (Option Document)
  | size _ => Nat

/-- The name of the index that a demand is about. -/
def index : Demand → String
  | call c => c.index
  | getAll name _ => name
  | size name => name

end Demand

/-- Demands and their answers. -/
abbrev demands : Signature := ⟨Demand, Demand.Answer⟩

/-- The store in memory meets a demand. -/
def Memory.meet : Program.World demands Memory := fun d m =>
  match d with
  | .call c => Memory.perform c m
  | .getAll name ids => (m.getAll name ids, m)
  | .size name => ((m.index name).size, m)

/-- The answers to requests in their order, and the state behind them. -/
def serve {S : Signature} {σ : Type} (world : Program.World S σ) :
    List S.Request → σ → List (Exchange S) × σ
  | [], s => ([], s)
  | r :: rs, s =>
    let rest := serve world rs (world r s).2
    (⟨r, (world r s).1⟩ :: rest.1, rest.2)

/-! ## Catalogs -/

/-- Why changes of a list are refused, if those that fit are made in their order.  The first change
stands at the given position. -/
def Write.failures (name : String) : Nat → List Write → List Document → List ItemError
  | _, [], _ => []
  | position, w :: ws, ds =>
    if w.Fits ds then failures name (position + 1) ws (w.change ds)
    else w.item name position :: failures name (position + 1) ws ds

/-- The documents under each name, in the order of their creation. -/
abbrev Catalog := String → List Document

namespace Catalog

/-- Nothing was ever written. -/
def empty : Catalog := fun _ => []

/-- The document of an id. -/
def find? (ds : List Document) (id : String) : Option Document := ds.find? fun d => d.id = id

/-- The documents that a query selects, in the order of the list.  With a sort, those that it does not
tell apart are in the order of the list. -/
def select (ds : List Document) (q : Query) : Option SortBy → List Document
  | none => ds.filter q.selects
  | some s =>
    ((ds.filter q.selects).zipIdx.reverse.mergeSort fun a b =>
      ((s.compare a.1.source b.1.source).then (compare a.2 b.2)).isLE).map Prod.fst

/-- A page of what is selected. -/
def search (ds : List Document) (r : SearchRequest) : Except StoreError SearchResponse :=
  (Index.offset r.pageToken).map fun start =>
    let selected := select ds r.query r.sort?
    let shown := page r.pageSize selected start
    ⟨shown.1, selected.length, shown.2⟩

/-- A catalog answers a demand. -/
def answer : Program.World demands Catalog := fun d c =>
  match d with
  | .call (.get name id) => (.ok (find? (c name) id), c)
  | .call (.search name r) => (search (c name) r, c)
  | .call (.searchAll name rs) => (rs.mapM (search (c name)), c)
  | .call (.write name w) =>
    if w.Fits (c name) then (.ok (), Function.update c name (w.change (c name)))
    else (.error (w.refusal name), c)
  | .call (.bulk name ws) =>
    match Write.changeAll? ws (c name) with
    | some ds => (.ok (), Function.update c name ds)
    | none => (.error (.bulk (Write.failures name 0 ws (c name))), c)
  | .getAll name ids => (ids.map (find? (c name)), c)
  | .size name => ((c name).length, c)

end Catalog

/-! ## One demand -/

namespace Index

variable {i : Index} {turns : Nat}

/-- The failures of a bulk request are those of its changes to the list. -/
theorem IsOrdered.applyAll_failures (h : i.IsOrdered turns) (name : String) (position : Nat)
    (ws : List Write) :
    (i.applyAll name position turns ws).2.2 = Write.failures name position ws i.toList := by
  induction ws generalizing i turns position with
  | nil => rfl
  | cons w ws ih =>
    by_cases hfits : w.Fits i.toList
    · obtain ⟨j, later, hj, -, hordered, hlist⟩ := h.apply_of_fits name hfits
      rw [applyAll, hj, Write.failures, if_pos hfits, ← hlist]
      exact ih hordered (position + 1)
    · rw [applyAll, h.apply_of_not_fits name hfits, Write.failures, if_neg hfits, ← ih h (position + 1)]
      rfl

/-- Where turns ascend, they compare as their places do. -/
theorem compare_turn {es : List Entry} (h : es.Pairwise fun a b => a.turn < b.turn) {j k : Nat}
    (hj : j < es.length) (hk : k < es.length) : compare es[j].turn es[k].turn = compare j k := by
  have hlt := List.pairwise_iff_getElem.1 h
  rcases Nat.lt_trichotomy j k with hjk | rfl | hkj
  · rw [Nat.compare_eq_lt.2 hjk, Nat.compare_eq_lt.2 (hlt j k hj hk hjk)]
  · rw [Nat.compare_eq_eq.2 rfl, Nat.compare_eq_eq.2 rfl]
  · rw [Nat.compare_eq_gt.2 hkj, Nat.compare_eq_gt.2 (hlt k j hk hj hkj)]

/-- **A sort that breaks ties by turns breaks them by the place in the list.** -/
theorem IsOrdered.select_eq (h : i.IsOrdered turns) (q : Query) (sort? : Option SortBy) :
    i.select q sort? = Catalog.select i.toList q sort? := by
  cases sort? with
  | none => exact h.select_none q
  | some s =>
    let byPlace (a b : Document × Nat) : Bool :=
      ((s.compare a.1.source b.1.source).then (compare a.2 b.2)).isLE
    -- the entries that match, the oldest first, each with its place among them
    let es := (i.entries.filter fun e => q.selects e.document).reverse
    have hascending : es.Pairwise fun a b => a.turn < b.turn :=
      List.pairwise_reverse.2 (h.descending.filter _)
    have hentries : es.zipIdx.reverse.map Prod.fst = i.entries.filter fun e => q.selects e.document := by
      rw [List.map_reverse, List.zipIdx_map_fst, List.reverse_reverse]
    have hdocuments : es.zipIdx.reverse.map (fun a => (a.1.document, a.2)) =
        (i.toList.filter q.selects).zipIdx.reverse := by
      rw [← h.select_none, h.select_none_eq, ← List.map_reverse, List.zipIdx_map, ← List.map_reverse]
      rfl
    have hagree : ∀ a ∈ es.zipIdx.reverse, ∀ b ∈ es.zipIdx.reverse,
        (entryOrder (some s) a.1 b.1).isLE = byPlace (a.1.document, a.2) (b.1.document, b.2) := by
      intro a ha b hb
      obtain ⟨hla, ha⟩ := List.mem_zipIdx' (List.mem_reverse.1 ha)
      obtain ⟨hlb, hb⟩ := List.mem_zipIdx' (List.mem_reverse.1 hb)
      have hcompare : compare a.1.turn b.1.turn = compare a.2 b.2 := by
        rw [ha, hb]
        exact compare_turn hascending hla hlb
      simp only [entryOrder, byPlace, hcompare]
    have hturns := List.map_mergeSort (f := Prod.fst) (l := es.zipIdx.reverse)
      (r := fun a b => (entryOrder (some s) a.1 b.1).isLE) (s := fun a b => (entryOrder (some s) a b).isLE)
      fun _ _ _ _ => rfl
    have hplaces := List.map_mergeSort (f := fun a : Entry × Nat => (a.1.document, a.2))
      (l := es.zipIdx.reverse) (r := fun a b => (entryOrder (some s) a.1 b.1).isLE) (s := byPlace) hagree
    rw [hentries] at hturns
    rw [hdocuments] at hplaces
    rw [select, Catalog.select, ← hturns, ← hplaces, List.map_map, List.map_map]
    rfl

/-- A search answers a page of what is selected of the list. -/
theorem IsOrdered.search_eq_catalog (h : i.IsOrdered turns) (r : SearchRequest) :
    i.search r = Catalog.search i.toList r := by
  rw [search_eq, h.select_eq]
  rfl

theorem IsOrdered.size_eq (h : i.IsOrdered turns) : i.size = i.toList.length := by
  rw [h.toList_eq, List.length_reverse, List.length_map, size]

end Index

namespace Memory

variable {m : Memory}

/-- A bulk request that is refused names the changes that do not fit. -/
theorem IsOrdered.bulk_failures (h : m.IsOrdered) {name : String} {ws : List Write}
    (hws : Write.changeAll? ws (m.documents name) = none) :
    m.bulk name ws = .error (.bulk (Write.failures name 0 ws (m.documents name))) := by
  have hsome := (h name).applyAll_of_none name 0 hws
  have hitems := (h name).applyAll_failures name 0 ws
  unfold bulk
  split
  · rename_i heq
    rw [heq] at hsome
    exact absurd rfl hsome
  · rename_i heq
    rw [heq] at hitems
    exact congrArg (fun items => Except.error (StoreError.bulk items)) hitems

theorem Becomes.documents {m later : Memory} {name : String} {ds : List Document}
    (h : m.Becomes name ds later) : later.documents = Function.update m.documents name ds := by
  funext other
  by_cases hother : other = name
  · rw [hother, Function.update_self, h.here]
  · rw [Function.update_of_ne hother, h.elsewhere other hother]

/-- **A demand does the same to a store and to its catalog**, and leaves the store ordered. -/
theorem IsOrdered.documents_meet (h : m.IsOrdered) (d : Demand) :
    (meet d m).2.IsOrdered ∧ Prod.map id documents (meet d m) = Catalog.answer d m.documents := by
  cases d with
  | call c =>
    cases c with
    | get name id =>
      refine ⟨h, Prod.ext ?_ rfl⟩
      exact congrArg Except.ok (h.get?_eq_find? id)
    | search name r => exact ⟨h, Prod.ext ((h name).search_eq_catalog r) rfl⟩
    | searchAll name rs =>
      refine ⟨h, Prod.ext ?_ rfl⟩
      show rs.mapM (m.search name) = rs.mapM (Catalog.search (m.documents name))
      rw [show m.search name = Catalog.search (m.documents name) from
        funext fun r => (h name).search_eq_catalog r]
    | write name w =>
      show (perform (.write name w) m).2.IsOrdered ∧ Prod.map id documents (perform (.write name w) m) =
        if w.Fits (m.documents name) then _ else _
      by_cases hfits : w.Fits (m.documents name)
      · obtain ⟨later, hwrite, hbecomes⟩ := h.write_of_fits hfits
        rw [perform_write_ok hwrite, if_pos hfits, ← hbecomes.documents]
        exact ⟨hbecomes.ordered, rfl⟩
      · rw [perform_write_error (h.write_of_not_fits hfits), if_neg hfits]
        exact ⟨h, rfl⟩
    | bulk name ws =>
      show (m.commit (m.bulk name ws)).2.IsOrdered ∧ Prod.map id documents (m.commit (m.bulk name ws)) =
        match Write.changeAll? ws (m.documents name) with
        | some ds => _
        | none => _
      cases hws : Write.changeAll? ws (m.documents name) with
      | some ds =>
        obtain ⟨later, hbulk, hbecomes⟩ := h.bulk_of_some hws
        rw [hbulk]
        exact ⟨hbecomes.ordered, Prod.ext rfl hbecomes.documents⟩
      | none =>
        rw [h.bulk_failures hws]
        exact ⟨h, rfl⟩
  | getAll name ids =>
    refine ⟨h, Prod.ext ?_ rfl⟩
    exact List.map_congr_left fun id _ => h.get?_eq_find? id
  | size name => exact ⟨h, Prod.ext (h name).size_eq rfl⟩

end Memory

/-! ## Every demand of a run -/

/-- **A run does the same to a store and to its catalog.** -/
theorem serve_documents {m : Memory} (h : m.IsOrdered) (ds : List Demand) :
    (serve Memory.meet ds m).2.IsOrdered ∧
      Prod.map id Memory.documents (serve Memory.meet ds m) = serve Catalog.answer ds m.documents := by
  induction ds generalizing m with
  | nil => exact ⟨h, rfl⟩
  | cons d ds ih =>
    obtain ⟨hordered, hmeet⟩ := h.documents_meet d
    obtain ⟨hrest, hserve⟩ := ih hordered
    refine ⟨hrest, ?_⟩
    simp only [serve, ← hmeet, Prod.map_fst, Prod.map_snd, id_eq, ← hserve]
    rfl

namespace Catalog

variable {c c' : Catalog} {d : Demand} {name : String}

/-- A demand about one list leaves the others as they are. -/
theorem answer_of_ne (h : d.index ≠ name) (c : Catalog) : (answer d c).2 name = c name := by
  cases d with
  | call call =>
    cases call with
    | write other w =>
      simp only [answer]
      split
      · exact Function.update_of_ne (Ne.symm h) _ _
      · rfl
    | bulk other ws =>
      simp only [answer]
      split
      · exact Function.update_of_ne (Ne.symm h) _ _
      · rfl
    | _ => rfl
  | _ => rfl

/-- What is answered about a list, and what becomes of it, depends on that list alone. -/
theorem answer_congr (h : c d.index = c' d.index) :
    (answer d c).1 = (answer d c').1 ∧ (answer d c).2 d.index = (answer d c').2 d.index := by
  cases d with
  | call call =>
    cases call with
    | write other w =>
      change c other = c' other at h
      simp only [answer, h]
      split
      · exact ⟨rfl, by simp [Demand.index, Call.index]⟩
      · exact ⟨rfl, h⟩
    | bulk other ws =>
      change c other = c' other at h
      simp only [answer, h]
      split
      · exact ⟨rfl, by simp [Demand.index, Call.index]⟩
      · exact ⟨rfl, h⟩
    | get other id => exact ⟨congrArg (fun ds => Except.ok (find? ds id)) h, h⟩
    | search other r => exact ⟨congrArg (fun ds => search ds r) h, h⟩
    | searchAll other rs => exact ⟨congrArg (fun ds => rs.mapM (search ds)) h, h⟩
  | getAll other ids => exact ⟨congrArg (fun ds => ids.map (find? ds)) h, h⟩
  | size other => exact ⟨congrArg List.length h, h⟩

/-- **One list is no business of another.**  The demands about a list are answered as if no others were
made. -/
theorem serve_filter (h : c name = c' name) (ds : List Demand) :
    ((serve answer ds c).1.filter fun e => e.request.index = name) =
      (serve answer (ds.filter fun d => d.index = name) c').1 := by
  induction ds generalizing c c' with
  | nil => rfl
  | cons d ds ih =>
    by_cases hd : d.index = name
    · have heq : c d.index = c' d.index := hd ▸ h
      obtain ⟨hanswer, hlist⟩ := answer_congr heq
      rw [hd] at hlist
      rw [List.filter_cons_of_pos (by simpa using hd), serve, serve,
        List.filter_cons_of_pos (by simpa using hd), hanswer, ih hlist]
    · rw [List.filter_cons_of_neg (by simpa using hd), serve,
        List.filter_cons_of_neg (by simpa using hd)]
      exact ih ((answer_of_ne hd c).trans h)

end Catalog

/-! ## Places -/

namespace Write

variable {before after : List Document} {x d : Document}

/-- An update takes the place of the document that it is about. -/
theorem change_update_append (hids : ((before ++ x :: after).map Document.id).Nodup)
    (hd : d.id = x.id) : (update d).change (before ++ x :: after) = before ++ d :: after := by
  rw [List.map_append, List.map_cons, List.nodup_append] at hids
  obtain ⟨-, hafter, hbefore⟩ := hids
  have hleft : ∀ y ∈ before, y.id ≠ d.id := fun y hy =>
    hd ▸ hbefore y.id (List.mem_map_of_mem hy) x.id List.mem_cons_self
  have hright : ∀ y ∈ after, y.id ≠ d.id := fun y hy heq =>
    (List.nodup_cons.1 hafter).1 (hd ▸ heq ▸ List.mem_map_of_mem hy)
  rw [change, List.map_append, List.map_cons, if_pos hd.symm]
  congr 1
  · exact (List.map_congr_left fun y hy => if_neg (hleft y hy)).trans (List.map_id _)
  · exact congrArg _ ((List.map_congr_left fun y hy => if_neg (hright y hy)).trans (List.map_id _))

/-- A deletion closes the gap. -/
theorem change_delete_append (hids : ((before ++ x :: after).map Document.id).Nodup) :
    (delete x.id).change (before ++ x :: after) = before ++ after := by
  rw [List.map_append, List.map_cons, List.nodup_append] at hids
  obtain ⟨-, hafter, hbefore⟩ := hids
  have hleft : ∀ y ∈ before, y.id ≠ x.id := fun y hy =>
    hbefore y.id (List.mem_map_of_mem hy) x.id List.mem_cons_self
  have hright : ∀ y ∈ after, y.id ≠ x.id := fun y hy heq =>
    (List.nodup_cons.1 hafter).1 (heq ▸ List.mem_map_of_mem hy)
  rw [change, List.filter_append, List.filter_cons_of_neg (by simp),
    List.filter_eq_self.2 (by simpa using hleft), List.filter_eq_self.2 (by simpa using hright)]

end Write

namespace Memory

variable {m : Memory} {name : String} {before after : List Document} {x d : Document}

/-- A change that fits is made, and the list of its name is what it makes of it. -/
theorem IsOrdered.meet_write (h : m.IsOrdered) {w : Write} (hw : w.Fits (m.documents name)) :
    ∃ later, meet (.call (.write name w)) m = (.ok (), later) ∧ later.IsOrdered ∧
      later.documents name = w.change (m.documents name) := by
  obtain ⟨later, hwrite, hbecomes⟩ := h.write_of_fits hw
  exact ⟨later, perform_write_ok hwrite, hbecomes.ordered, hbecomes.here⟩

/-- An update keeps the place of the document. -/
theorem IsOrdered.meet_update (h : m.IsOrdered) (hm : m.documents name = before ++ x :: after)
    (hd : d.id = x.id) : ∃ later, meet (.call (.write name (.update d))) m = (.ok (), later) ∧
      later.documents name = before ++ d :: after := by
  have hids := h.nodup_ids name
  have hfits : (Write.update d).Fits (m.documents name) := ⟨x, by simp [hm], hd.symm⟩
  obtain ⟨later, hmeet, -, hlist⟩ := h.meet_write hfits
  rw [hm] at hids hlist
  exact ⟨later, hmeet, hlist.trans (Write.change_update_append hids hd)⟩

/-- A document that is deleted and created again goes to the end. -/
theorem IsOrdered.meet_delete_create (h : m.IsOrdered) (hm : m.documents name = before ++ x :: after)
    (hd : d.id = x.id) : ∃ mid later, meet (.call (.write name (.delete x.id))) m = (.ok (), mid) ∧
      meet (.call (.write name (.create d))) mid = (.ok (), later) ∧
      later.documents name = before ++ after ++ [d] := by
  have hids := h.nodup_ids name
  have hfits : (Write.delete x.id).Fits (m.documents name) := ⟨x, by simp [hm], rfl⟩
  obtain ⟨mid, hmeet, hordered, hlist⟩ := h.meet_write hfits
  rw [hm] at hids hlist
  rw [Write.change_delete_append hids] at hlist
  have hfree : (Write.create d).Fits (mid.documents name) := by
    intro y hy
    rw [hlist] at hy
    rw [List.map_append, List.map_cons, List.nodup_middle] at hids
    have hnot := (List.nodup_cons.1 hids).1
    rw [← List.map_append] at hnot
    exact fun heq => hnot (hd ▸ heq ▸ List.mem_map_of_mem hy)
  obtain ⟨later, hmeet', -, hlist'⟩ := hordered.meet_write hfree
  exact ⟨mid, later, hmeet, hmeet', by rw [hlist', hlist]; rfl⟩

end Memory

/-! ## From the outside -/

namespace Index

variable {i : Index} {turns : Nat}

theorem IsOrdered.nodup_turns (h : i.IsOrdered turns) : (i.entries.map Entry.turn).Nodup :=
  List.pairwise_map.2 (h.descending.imp fun hlt => (Nat.ne_of_lt hlt).symm)

/-- Every entry is found under the id of its own document. -/
theorem IsOrdered.entry?_own (h : i.IsOrdered turns) {e : Entry} (he : e ∈ i.entries) :
    i.entry? e.document.id = some e := by
  obtain ⟨f, hf⟩ := Option.isSome_iff_exists.1
    ((h.isSome_entry_iff e.document.id).2 ⟨e.document, h.mem_toList.2 ⟨e, he, rfl⟩, rfl⟩)
  have hid : f.document.id = e.document.id := by simpa using List.find?_some hf
  rw [hf, List.inj_on_of_nodup_map h.ids (List.mem_of_find?_eq_some hf) he hid]

end Index

/-- **The store cannot be told from a catalog.**  Whatever is asked of a new store, the answers are those
of an empty catalog, and so are the lists that are left.  No turn is given twice in an index or is past
the counter, and every entry is found under its own id.  An update keeps the place of a document, a
deletion and a creation of its id move it to the end.  The demands about one index are answered as if
there were no others. -/
theorem served_as_catalog (ds : List Demand) :
    (serve Memory.meet ds .empty).1 = (serve Catalog.answer ds .empty).1 ∧
      (serve Memory.meet ds .empty).2.documents = (serve Catalog.answer ds .empty).2 ∧
      (∀ name,
        let i := (serve Memory.meet ds .empty).2.index name
        (i.entries.map Entry.turn).Nodup ∧
          (∀ e ∈ i.entries, e.turn ≤ (serve Memory.meet ds .empty).2.turns ∧
            i.entry? e.document.id = some e) ∧
          (i.toList.map Document.id).Nodup) ∧
      (∀ name before x after d,
        (serve Memory.meet ds .empty).2.documents name = before ++ x :: after → d.id = x.id →
        (∃ later, Memory.meet (.call (.write name (.update d))) (serve Memory.meet ds .empty).2 =
            (.ok (), later) ∧ later.documents name = before ++ d :: after) ∧
        ∃ mid later, Memory.meet (.call (.write name (.delete x.id))) (serve Memory.meet ds .empty).2 =
            (.ok (), mid) ∧ Memory.meet (.call (.write name (.create d))) mid = (.ok (), later) ∧
          later.documents name = before ++ after ++ [d]) ∧
      ∀ name, ((serve Memory.meet ds .empty).1.filter fun e => e.request.index = name) =
        (serve Memory.meet (ds.filter fun d => d.index = name) .empty).1 := by
  have hempty : Memory.empty.documents = Catalog.empty := funext Memory.documents_empty
  have hserve : ∀ ds, Prod.map id Memory.documents (serve Memory.meet ds .empty) =
      serve Catalog.answer ds .empty := fun ds => by
    rw [(serve_documents Memory.isOrdered_empty ds).2, hempty]
  have hanswers : ∀ ds, (serve Memory.meet ds .empty).1 = (serve Catalog.answer ds .empty).1 :=
    fun ds => congrArg Prod.fst (hserve ds)
  have hordered := (serve_documents Memory.isOrdered_empty ds).1
  refine ⟨hanswers ds, congrArg Prod.snd (hserve ds), fun name => ?_, fun name before x after d hm hd => ?_,
    fun name => ?_⟩
  · exact ⟨(hordered name).nodup_turns,
      fun e he => ⟨(hordered name).turn_le e he, (hordered name).entry?_own he⟩,
      (hordered name).nodup_ids⟩
  · exact ⟨hordered.meet_update hm hd, hordered.meet_delete_create hm hd⟩
  · rw [hanswers, hanswers]
    exact Catalog.serve_filter rfl ds

/-- The first of two notes is deleted and created again. -/
theorem served_as_catalog_twoNotes :
    let ds : List Demand := [.call (.write "notes" (.create ⟨"a", .null, none⟩)),
      .call (.write "notes" (.create ⟨"b", .null, none⟩))]
    (serve Memory.meet ds .empty).2.documents "notes" = [⟨"a", .null, none⟩, ⟨"b", .null, none⟩] ∧
      ∃ mid later,
        Memory.meet (.call (.write "notes" (.delete "a"))) (serve Memory.meet ds .empty).2 =
          (.ok (), mid) ∧
        Memory.meet (.call (.write "notes" (.create ⟨"a", .bool true, none⟩))) mid = (.ok (), later) ∧
        later.documents "notes" = [⟨"b", .null, none⟩, ⟨"a", .bool true, none⟩] := by
  intro ds
  obtain ⟨-, hdocuments, -, hplaces, -⟩ := served_as_catalog ds
  have hnotes : (serve Memory.meet ds .empty).2.documents "notes" =
      [] ++ ⟨"a", .null, none⟩ :: [⟨"b", .null, none⟩] :=
    (congrFun hdocuments "notes").trans rfl
  exact ⟨hnotes, (hplaces "notes" [] _ _ ⟨"a", .bool true, none⟩ hnotes rfl).2⟩

end Gatehouse.Store
