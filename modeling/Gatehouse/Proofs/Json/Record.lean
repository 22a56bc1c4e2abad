import Gatehouse.Json.Record

/-!
# Records that were written

A record that the service writes has each member once, under a name that the decoder knows.  So the
decoder sees the members themselves (`Record.ofJson?_object`), and each kind of member is read back
by the reader of its kind.  A decoder is a sequence of readings; `Record.step` takes one off its front.
-/

namespace Gatehouse.Json

/-! ## Decoders -/

/-- A list without repetitions has a name at most once. -/
theorem length_filter_le_one {members : List (String × Json)} (h : (members.map Prod.fst).Nodup)
    (name : String) : (members.filter fun m => m.1 = name).length ≤ 1 := by
  have hcount := List.nodup_iff_count.1 h name
  rw [List.count_eq_countP, List.countP_map, List.countP_eq_length_filter] at hcount
  exact hcount

/-- **An object without repetitions is the record of its members.** -/
theorem Record.ofJson?_object (names : List String) {members : List (String × Json)}
    (h : (members.map Prod.fst).Nodup) :
    Record.ofJson? names (.object members) = some fun name => member? name members := by
  have hall : (names.all fun name => (members.filter fun m => m.1 = name).length ≤ 1) = true :=
    List.all_eq_true.2 fun name _ => decide_eq_true (length_filter_le_one h name)
  simp only [Record.ofJson?, Record.ofJsonFrom?, Record.ofObject?, hall, if_true]

namespace Record

variable {α β : Type} {r : Record} {name : String} {read : Json → Option α} {value : Json} {a : α}

/-- One reading of a decoder, and then the rest. -/
theorem step {x : Option α} {f : α → Option β} {b : β} (h : x = some a) (hf : f a = some b) :
    (x >>= f) = some b := by
  rw [h]
  exact hf

theorem required_of (hv : r name = some value) (hr : read value = some a) :
    r.required name read = some a := by
  rw [required, hv]
  exact hr

theorem defaulted_of {default : α} (hv : r name = some value) (hr : read value = some a) :
    r.defaulted name read default = some a := by
  rw [defaulted, hv]
  exact hr

theorem optional_of (hv : r name = some value) (hn : value ≠ .null) (hr : read value = some a) :
    r.optional name read = some (some a) := by
  unfold optional
  rw [hv]
  split
  · contradiction
  · rename_i h
    exact absurd (Option.some.inj h) hn
  · rename_i h
    rw [← Option.some.inj h, hr]
    rfl

end Record

/-- A text is decoded as something else by decoding it and going on from there. -/
theorem decode?_map {α β : Type} (read : Json → Option α) (f : α → β) (text : String) :
    decode? (fun value => (read value).map f) text = (decode? read text).map f := by
  unfold decode?
  cases readMembers? text.toList with
  | none => rfl
  | some written =>
    show ((read written).map f >>= fun _ => (read written.settled).map f) =
      (read written >>= fun _ => read written.settled).map f
    cases read written with
    | none => rfl
    | some _ => rfl

/-! ## Members -/

/-- A count below the limit is read back. -/
theorem count?_ofNat {limit n : Nat} (h : n < limit) : count? limit (.ofNat n) = some n := by
  simp [count?, ofNat, h]

/-- Items are read back if each of them is. -/
theorem items?_map {α : Type} {read : Json → Option α} {write : α → Json} {as : List α}
    (h : ∀ a ∈ as, read (write a) = some a) : items? read (.array (as.map write)) = some as := by
  show (as.map write).mapM read = some as
  induction as with
  | nil => rfl
  | cons a as ih =>
    rw [List.map_cons, List.mapM_cons, h a List.mem_cons_self,
      ih fun b hb => h b (List.mem_cons_of_mem a hb)]
    rfl

end Gatehouse.Json
