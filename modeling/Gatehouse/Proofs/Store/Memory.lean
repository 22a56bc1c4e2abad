import Gatehouse.Proofs.Store.Index
import Gatehouse.Store.Call

/-!
# The store is a list of documents for each name

What holds of one index holds of all: the store answers as if it kept, under each name, the list of its
documents in the order of their creation.

* **One change** (`write_of_fits`, `write_of_not_fits`) and **many at once** (`bulk_of_some`,
  `bulk_of_none`) do to the list of a name what `Write.change` does, or nothing.
* **The frame.**  `Becomes` says what a successful call did: one list is another one, and all the
  others are as they were.
-/

namespace Gatehouse.Store

/-! ## Changes one after the other -/

/-- A list after changes in their order; `none` if one of them does not fit when its turn comes. -/
def Write.changeAll? : List Write → List Document → Option (List Document)
  | [], ds => some ds
  | w :: ws, ds => if w.Fits ds then changeAll? ws (w.change ds) else none

/-- Changes that fit are made one after the other. -/
theorem Write.eq_foldl_of_changeAll? {ws : List Write} {ds later : List Document}
    (h : changeAll? ws ds = some later) : later = ws.foldl (fun ds w => w.change ds) ds := by
  induction ws generalizing ds with
  | nil => exact (Option.some.inj h).symm
  | cons w ws ih =>
    rw [changeAll?] at h
    split at h
    · exact ih h
    · contradiction

theorem Write.foldl_delete (ids : List String) (ds : List Document) :
    (ids.map delete).foldl (fun ds w => w.change ds) ds = ds.filter fun d => d.id ∉ ids := by
  induction ids generalizing ds with
  | nil => simp
  | cons id ids ih =>
    rw [List.map_cons, List.foldl_cons, ih, change, List.filter_filter]
    refine List.filter_congr fun d _ => ?_
    by_cases h : d.id = id <;> simp [h]

theorem Write.foldl_create (new ds : List Document) :
    (new.map create).foldl (fun ds w => w.change ds) ds = ds ++ new := by
  induction new generalizing ds with
  | nil => simp
  | cons d new ih =>
    rw [List.map_cons, List.foldl_cons, ih, change, List.append_assoc, List.singleton_append]

/-- Updating the document of a record replaces the record. -/
theorem Write.change_update_map {α : Type} (write : α → Document) (as : List α) (a : α) :
    (update (write a)).change (as.map write) =
      (as.map fun b => if (write b).id = (write a).id then a else b).map write := by
  rw [change, List.map_map, List.map_map]
  refine List.map_congr_left fun b _ => ?_
  simp only [Function.comp_def]
  split <;> rfl

/-- Deleting one id after the other leaves the documents of other ids. -/
theorem Write.changeAll?_delete {ids : List String} {ds : List Document} (hids : ids.Nodup)
    (hmem : ∀ id ∈ ids, ∃ d ∈ ds, d.id = id) :
    changeAll? (ids.map delete) ds = some (ds.filter fun d => d.id ∉ ids) := by
  induction ids generalizing ds with
  | nil => simp [changeAll?]
  | cons id ids ih =>
    obtain ⟨hid, hids⟩ := List.nodup_cons.1 hids
    have hfits : (delete id).Fits ds := hmem id List.mem_cons_self
    have hrest : ∀ i ∈ ids, ∃ d ∈ (delete id).change ds, d.id = i := by
      intro i hi
      obtain ⟨d, hd, rfl⟩ := hmem i (List.mem_cons_of_mem _ hi)
      have hne : d.id ≠ id := fun h => hid (h ▸ hi)
      exact ⟨d, List.mem_filter.2 ⟨hd, by simpa using hne⟩, rfl⟩
    rw [List.map_cons, changeAll?, if_pos hfits, ih hids hrest, change, List.filter_filter]
    congr 1
    refine List.filter_congr fun d _ => ?_
    by_cases h : d.id = id <;> simp [h, hid]

/-- Creating documents whose ids are free puts them behind the others. -/
theorem Write.changeAll?_create {new ds : List Document}
    (hids : ((ds ++ new).map Document.id).Nodup) :
    changeAll? (new.map create) ds = some (ds ++ new) := by
  induction new generalizing ds with
  | nil => simp [changeAll?]
  | cons d new ih =>
    rw [List.append_cons] at hids
    have hfits : (create d).Fits ds := by
      intro x hx
      have hnodup : (ds.map Document.id ++ [d.id]).Nodup := by
        refine hids.sublist ?_
        rw [List.map_append, List.map_append]
        exact List.sublist_append_left _ _
      have hnotMem := (List.nodup_append.1 hnodup).2.2
      exact hnotMem x.id (List.mem_map_of_mem hx) d.id (List.mem_singleton_self _)
    rw [List.map_cons, changeAll?, if_pos hfits, change, ih hids, List.append_assoc]
    rfl

namespace Index

variable {turns : Nat}

theorem IsOrdered.applyAll_of_some {i : Index} (h : i.IsOrdered turns) (name : String) (position : Nat)
    {ws : List Write} {ds : List Document} (hws : Write.changeAll? ws i.toList = some ds) :
    ∃ j later, i.applyAll name position turns ws = (j, later, []) ∧ j.IsOrdered later ∧
      turns ≤ later ∧ j.toList = ds := by
  induction ws generalizing i turns position with
  | nil => exact ⟨i, turns, rfl, h, Nat.le_refl _, Option.some.inj hws⟩
  | cons w ws ih =>
    rw [Write.changeAll?] at hws
    split at hws
    · rename_i hfits
      obtain ⟨j, mid, hj, hle, hordered, hlist⟩ := h.apply_of_fits name hfits
      rw [← hlist] at hws
      obtain ⟨k, later, hk, hk', hle', hds⟩ := ih hordered (position + 1) hws
      refine ⟨k, later, ?_, hk', Nat.le_trans hle hle', hds⟩
      rw [applyAll, hj]
      exact hk
    · contradiction

/-- One change that is refused is a failure of all. -/
theorem IsOrdered.applyAll_of_none {i : Index} (h : i.IsOrdered turns) (name : String) (position : Nat)
    {ws : List Write} (hws : Write.changeAll? ws i.toList = none) :
    (i.applyAll name position turns ws).2.2 ≠ [] := by
  induction ws generalizing i turns position with
  | nil => contradiction
  | cons w ws ih =>
    rw [Write.changeAll?] at hws
    split at hws
    · rename_i hfits
      obtain ⟨j, mid, hj, -, hordered, hlist⟩ := h.apply_of_fits name hfits
      rw [← hlist] at hws
      rw [applyAll, hj]
      exact ih hordered (position + 1) hws
    · rename_i hfits
      rw [applyAll, h.apply_of_not_fits name hfits]
      exact List.cons_ne_nil _ _

end Index

theorem Query.selects_hasRelation {relation : String} {d : Document} :
    (hasRelation relation).selects d = true ↔ d.relation? = some relation := decide_eq_true_iff

/-- All of the queries of a list select a document together if each of them does. -/
theorem Query.selects_every (qs : List Query) (d : Document) :
    (every qs).selects d = qs.all fun q => q.selects d := by
  induction qs with
  | nil => rfl
  | cons q qs ih => rw [List.all_cons, ← ih]; rfl

namespace Memory

/-- Every index is ordered. -/
def IsOrdered (m : Memory) : Prop := ∀ name, (m.index name).IsOrdered m.turns

/-- A store after a change under one name. -/
structure Becomes (m : Memory) (name : String) (ds : List Document) (later : Memory) : Prop where
  ordered : later.IsOrdered
  here : later.documents name = ds
  elsewhere : ∀ other, other ≠ name → later.documents other = m.documents other

variable {m : Memory} {name : String}

theorem isOrdered_empty : empty.IsOrdered := fun _ => Index.isOrdered_empty _

@[simp] theorem documents_empty (name : String) : empty.documents name = [] := Index.toList_empty

/-! ## Reading -/

theorem IsOrdered.nodup_ids (h : m.IsOrdered) (name : String) :
    ((m.documents name).map Document.id).Nodup := (h name).nodup_ids

theorem IsOrdered.get?_eq_some (h : m.IsOrdered) {id : String} {d : Document} :
    m.get? name id = some d ↔ d ∈ m.documents name ∧ d.id = id := (h name).get?_eq_some

theorem IsOrdered.get?_eq_none (h : m.IsOrdered) {id : String} :
    m.get? name id = none ↔ ∀ d ∈ m.documents name, d.id ≠ id := (h name).get?_eq_none

theorem IsOrdered.get?_eq_find? (h : m.IsOrdered) (id : String) :
    m.get? name id = (m.documents name).find? fun d => d.id = id := by
  cases hfind : (m.documents name).find? fun d => d.id = id with
  | some d => exact h.get?_eq_some.2 ⟨List.mem_of_find?_eq_some hfind, by simpa using List.find?_some hfind⟩
  | none => exact h.get?_eq_none.2 (by simpa using List.find?_eq_none.1 hfind)

/-- Reading by id where the documents are those of some records. -/
theorem IsOrdered.get?_map {α : Type} {write : α → Document} {as : List α} (h : m.IsOrdered)
    (has : m.documents name = as.map write) (id : String) :
    m.get? name id = (as.find? fun a => (write a).id = id).map write := by
  rw [h.get?_eq_find?, has, List.find?_map]
  rfl

/-- A search that asks for one page of everything answers all matches. -/
theorem search_whole (m : Memory) (name : String) (q : Query) (sort? : Option SortBy) :
    m.search name { query := q, sort? := sort? } =
      .ok ⟨(m.index name).select q sort?, ((m.index name).select q sort?).length, ""⟩ := by
  simp [search, Index.search, Index.offset, bind, Except.bind, pure, Except.pure]

/-- Without a sort it answers the documents in the order of their creation. -/
theorem IsOrdered.search_unsorted (h : m.IsOrdered) (name : String) (q : Query) :
    m.search name { query := q } =
      .ok ⟨(m.documents name).filter q.selects, ((m.documents name).filter q.selects).length, ""⟩ := by
  rw [search_whole, (h name).select_none]
  rfl

/-- A search is refused for its page token only. -/
theorem search_error {r : SearchRequest} {e : StoreError} (h : m.search name r = .error e) :
    e = .invalidPageToken r.pageToken := by
  have hoffset : Index.offset r.pageToken = .error e := by
    cases hstart : Index.offset r.pageToken with
    | ok start =>
      simp [search, Index.search, hstart, bind, Except.bind, pure, Except.pure] at h
    | error e' =>
      simp only [search, Index.search, hstart, bind, Except.bind] at h
      exact congrArg Except.error (Except.error.inj h)
  unfold Index.offset at hoffset
  split at hoffset
  · contradiction
  · split at hoffset
    · contradiction
    · exact (Except.error.inj hoffset).symm

/-- What a search answers is stored, and is what the query selects. -/
theorem IsOrdered.mem_hits (h : m.IsOrdered) {r : SearchRequest} {found : SearchResponse}
    (hfound : m.search name r = .ok found) {d : Document} (hd : d ∈ found.hits) :
    d ∈ m.documents name ∧ r.query.selects d = true := by
  have hselected : d ∈ (m.index name).select r.query r.sort? := by
    cases hstart : Index.offset r.pageToken with
    | error e => simp [search, Index.search, hstart, bind, Except.bind] at hfound
    | ok start =>
      simp only [search, Index.search, hstart, bind, Except.bind, pure, Except.pure] at hfound
      -- a page is a part of all that is selected
      rw [← Except.ok.inj hfound] at hd
      exact List.mem_of_mem_drop (List.mem_of_mem_take hd)
  exact List.mem_filter.1 (((h name).select_perm r.query r.sort?).mem_iff.1 hselected)

/-- Several searches for everything are answered, each in its place. -/
theorem IsOrdered.searchAll_unsorted (h : m.IsOrdered) (name : String) (qs : List Query) :
    m.searchAll name (qs.map fun q => { query := q }) = .ok (qs.map fun q =>
      ⟨(m.documents name).filter q.selects, ((m.documents name).filter q.selects).length, ""⟩) := by
  induction qs with
  | nil => rfl
  | cons q qs ih =>
    rw [searchAll] at ih ⊢
    rw [List.map_cons, List.mapM_cons, h.search_unsorted, ih]
    rfl

/-! ## Writing -/

/-- Only the index of the name is another one. -/
theorem index_setIndex (m : Memory) (name other : String) (i : Index) (turns : Nat) :
    (m.setIndex name i turns).index other = if name = other then i else m.index other := by
  rw [index, setIndex, Table.get?_set]
  split <;> rfl

theorem IsOrdered.setIndex (h : m.IsOrdered) {i : Index} {turns : Nat} (hi : i.IsOrdered turns)
    (hle : m.turns ≤ turns) : m.Becomes name i.toList (m.setIndex name i turns) := by
  refine ⟨fun other => ?_, ?_, fun other hne => ?_⟩
  · rw [index_setIndex]
    split
    · exact hi
    · exact (h other).mono hle
  · rw [documents, index_setIndex, if_pos rfl]
  · rw [documents, index_setIndex, if_neg hne.symm, documents]

theorem IsOrdered.write_of_fits (h : m.IsOrdered) {w : Write} (hw : w.Fits (m.documents name)) :
    ∃ later, m.write name w = .ok later ∧ m.Becomes name (w.change (m.documents name)) later := by
  obtain ⟨i, turns, happly, hle, hordered, hlist⟩ := (h name).apply_of_fits name hw
  refine ⟨m.setIndex name i turns, ?_, ?_⟩
  · rw [write, happly]
    rfl
  · rw [documents, ← hlist]
    exact h.setIndex hordered hle

theorem IsOrdered.write_of_not_fits (h : m.IsOrdered) {w : Write}
    (hw : ¬ w.Fits (m.documents name)) : m.write name w = .error (w.refusal name) := by
  rw [write, (h name).apply_of_not_fits name hw]
  rfl

/-- **All changes of a list are made, each after the one before it.** -/
theorem IsOrdered.bulk_of_some (h : m.IsOrdered) {ws : List Write} {ds : List Document}
    (hws : Write.changeAll? ws (m.documents name) = some ds) :
    ∃ later, m.bulk name ws = .ok later ∧ m.Becomes name ds later := by
  obtain ⟨i, turns, happly, hordered, hle, hlist⟩ := (h name).applyAll_of_some name 0 hws
  refine ⟨m.setIndex name i turns, ?_, ?_⟩
  · rw [bulk, happly]
  · rw [← hlist]
    exact h.setIndex hordered hle

/-- **Or none of them is.** -/
theorem IsOrdered.bulk_of_none (h : m.IsOrdered) {ws : List Write}
    (hws : Write.changeAll? ws (m.documents name) = none) : ∃ e, m.bulk name ws = .error e := by
  have hitems := (h name).applyAll_of_none name 0 hws
  unfold bulk
  split
  · rename_i heq
    rw [heq] at hitems
    exact absurd rfl hitems
  · exact ⟨_, rfl⟩

end Memory
end Gatehouse.Store
