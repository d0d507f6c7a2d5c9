import NodeInventory.Json.Fields
import NodeInventory.Proofs.Dict
import NodeInventory.Proofs.Traversal

/-!
# What is found in an object

Everything that is read from an object by name is read from the values that stand under the name
(`valuesOf`). Of a record there may be one at most, and of an open object the last one counts. They
change neither when members change places nor when members of other names join them
(`valuesOf_perm`).

What was written as a dictionary, as a list or as members of an object is read as such again, if
this is so for the single values.
-/

namespace NodeInventory

namespace Dict

variable {α : Type} {d : Dict α} {k : String} {v : α}

theorem insertEntry_of_lt {l : List (String × α)} (h : ∀ a ∈ l, a.1 < k) :
    insertEntry k v l = l ++ [(k, v)] := by
  induction l with
  | nil => rfl
  | cons a l ih =>
    have ha : a.1 < k := h a List.mem_cons_self
    rw [insertEntry, if_neg (String.lt_asymm ha), if_neg (fst_ne_of_lt (b := (k, v)) ha).symm,
      ih fun b hb ↦ h b (List.mem_cons_of_mem _ hb), List.cons_append]

theorem toList_foldl_insert {l : List (String × α)}
    (h : (d.toList ++ l).Pairwise fun a b ↦ a.1 < b.1) :
    (l.foldl (fun d e ↦ d.insert e.1 e.2) d).toList = d.toList ++ l := by
  induction l generalizing d with
  | nil => exact (List.append_nil _).symm
  | cons a l ih =>
    have hinsert : (d.insert a.1 a.2).toList = d.toList ++ [a] :=
      insertEntry_of_lt fun b hb ↦ (List.pairwise_append.mp h).2.2 b hb a List.mem_cons_self
    have hd : (d.insert a.1 a.2).toList ++ l = d.toList ++ a :: l := by
      rw [hinsert, List.append_assoc, List.singleton_append]
    rw [List.foldl_cons, ih (hd ▸ h), hd]

theorem ofList_toList (d : Dict α) : ofList d.toList = d :=
  ext_toList (toList_foldl_insert (d := empty) d.sorted)

end Dict

namespace Json

variable {α β : Type} {read : Json → Option α} {write : α → Json}

/-! ## Values of a name -/

/-- The values of the members of a name, in order. -/
def valuesOf (name : String) (members : List (Option String × Json)) : List Json :=
  (members.filter (·.1 == some name)).map (·.2)

variable {name : String} {members members' extra : List (Option String × Json)}

theorem length_valuesOf (name : String) (members : List (Option String × Json)) :
    (valuesOf name members).length = occurrences name members := by
  rw [valuesOf, List.length_map, occurrences, List.countP_eq_length_filter]

theorem head?_valuesOf (name : String) (members : List (Option String × Json)) :
    (valuesOf name members).head? = (members.find? (·.1 == some name)).map (·.2) := by
  rw [valuesOf, List.head?_map, List.head?_filter]

/-- Members of other names do not count, nor does the order in which members of different names
stand. -/
theorem valuesOf_perm (hperm : members'.Perm (members ++ extra))
    (hextra : ∀ m ∈ extra, m.1 ≠ some name) :
    (valuesOf name members').Perm (valuesOf name members) := by
  have hnone : valuesOf name extra = [] := by
    rw [valuesOf, List.map_eq_nil_iff, List.filter_eq_nil_iff]
    exact fun m hm h ↦ hextra m hm (eq_of_beq h)
  have h := (hperm.filter (·.1 == some name)).map (·.2)
  rw [List.filter_append, List.map_append] at h
  change (valuesOf name members').Perm (valuesOf name members ++ valuesOf name extra) at h
  rwa [hnone, List.append_nil] at h

/-! ## Records -/

theorem eq_toList_iff {l : List α} {x : Option α} : l = x.toList ↔ l.length ≤ 1 ∧ l.head? = x := by
  match l, x with
  | [], none | [], some _ | [_], none | [_], some _ => simp
  | _ :: _ :: _, none | _ :: _ :: _, some _ => simp

/-- Two fields are read from an object in which each of them occurs once at most. -/
theorem fields?_object_eq_some_iff {a b : String} {x y : Option Json} :
    fields? [a, b] (.object members) = some [x, y] ↔
      (∀ m ∈ members, m.1.isSome) ∧ valuesOf a members = x.toList ∧
        valuesOf b members = y.toList := by
  rw [fields?, Option.ite_none_right_eq_some, eq_toList_iff, eq_toList_iff]
  simp only [keysDenote, length_valuesOf, head?_valuesOf]
  simp
  tauto

theorem fields?_array_eq_some_iff {a b : String} {items : List Json} {x y : Option Json} :
    fields? [a, b] (.array items) = some [x, y] ↔
      items = x.toList ++ y.toList ∧ (x = none → y = none) := by
  match items with
  | [] => cases x <;> cases y <;> simp [fields?]
  | [v] => cases x <;> cases y <;> simp [fields?]
  | [v, w] => cases x <;> cases y <;> simp [fields?]
  | _ :: _ :: _ :: _ => cases x <;> cases y <;> simp [fields?]

/-! ## Single values -/

theorem text?_eq_some_iff {v : Json} {s : String} : v.text? = some s ↔ v = text s := by
  cases v <;> simp [text?, text]

@[simp] theorem isNull_text (s : String) : (text s).isNull = false := rfl

@[simp] theorem int?_int (n : ℤ) : (int n).int? = some n := by
  by_cases hneg : n < 0
  · have hne : n.natAbs ≠ 0 := by omega
    have habs : -(n.natAbs : ℤ) = n := by omega
    rw [int, decide_eq_true hneg, int?, if_neg hne, habs]
  · have habs : (n.natAbs : ℤ) = n := by omega
    rw [int, decide_eq_false hneg, int?, habs]

/-! ## Lists and dictionaries -/

theorem list?_text?_eq_some_iff {v : Json} {l : List String} :
    list? text? v = some l ↔ v = texts l := by
  constructor
  · intro h
    obtain ⟨items, hitems, hmap⟩ := Option.bind_eq_some_iff.mp h
    cases v <;> cases hitems
    rw [(mapM_eq_some_iff_eq_map fun _ _ ↦ text?_eq_some_iff).mp hmap, texts]
  · rintro rfl
    exact (mapM_eq_some_iff_eq_map fun _ _ ↦ text?_eq_some_iff).mpr rfl

theorem list?_text?_texts (l : List String) : list? text? (texts l) = some l :=
  list?_text?_eq_some_iff.mpr rfl

theorem list?_array_map {f : α → β} {read : Json → Option β} {l : List α}
    (h : ∀ a ∈ l, read (write a) = some (f a)) :
    list? read (.array (l.map write)) = some (l.map f) :=
  mapM_map h

theorem exists_of_mem_of_list? {v : Json} {l : List α} (h : list? read v = some l) {a : α}
    (ha : a ∈ l) : ∃ w, read w = some a := by
  obtain ⟨items, -, hmap⟩ := Option.bind_eq_some_iff.mp h
  exact (exists_of_mem_of_mapM hmap ha).imp fun w ↦ And.right

theorem dict?_ofDict (h : ∀ a, read (write a) = some a) (d : Dict α) :
    dict? read (ofDict write d) = some d := by
  rw [ofDict, record, dict?, List.map_map, mapM_map (h := id) fun e _ ↦ by simp [h]]
  simp [Dict.ofList_toList]

/-! ## Members of open objects -/

@[simp] theorem openObject?_record (members : List (String × Json)) :
    openObject? (record members) = some (members.map fun m ↦ (some m.1, m.2)) := by
  simp [record, openObject?, keysDenote]

@[simp] theorem optionalMember_some (key : String) (write : α → Json) (a : α) :
    optionalMember key write (some a) = [(key, write a)] := rfl

@[simp] theorem filter_optionalMember (key name : String) (write : α → Json) (a : Option α) :
    (optionalMember key write a).filter (·.1 == name) =
      if key = name then optionalMember key write a else [] := by
  cases a with
  | none => simp [optionalMember]
  | some a => simp [optionalMember, List.filter_singleton]

theorem member?_eq (read : Json → Option α) (key : String)
    (members : List (Option String × Json)) : member? read key members =
      ((valuesOf key members).mapM fun v : Json ↦
        if v.isNull then some none else (read v).map some).map fun l ↦ l.getLast?.join := by
  rw [member?, valuesOf, List.mapM_map, Option.map_eq_bind]
  rfl

/-- A member that is written if there is a value for it is read as what the value is read as. -/
theorem member?_map_eq_some_map {f : α → β} {read : Json → Option β} {key : String} {a : Option α}
    {members : List (String × Json)} (write : α → Json)
    (hmembers : members.filter (·.1 == key) = optionalMember key write a)
    (h : ∀ b ∈ a, (write b).isNull = false ∧ read (write b) = some (f b)) :
    member? read key (members.map fun m ↦ (some m.1, m.2)) = some (a.map f) := by
  have hvalues : valuesOf key (members.map fun m ↦ (some m.1, m.2)) = (a.map write).toList := by
    rw [valuesOf, List.filter_map, List.map_map]
    change (members.filter (·.1 == key)).map (·.2) = _
    rw [hmembers]
    cases a <;> rfl
  rw [member?_eq, hvalues]
  cases a with
  | none => rfl
  | some b => simp [h b rfl]

theorem member?_map_eq_some {key : String} {a : Option α} {members : List (String × Json)}
    (write : α → Json) (hmembers : members.filter (·.1 == key) = optionalMember key write a)
    (h : ∀ b ∈ a, (write b).isNull = false ∧ read (write b) = some b) :
    member? read key (members.map fun m ↦ (some m.1, m.2)) = some a := by
  simpa using member?_map_eq_some_map (f := id) write hmembers h

theorem exists_of_member? {key : String} {a : α} (h : member? read key members = some (some a)) :
    ∃ v, v.isNull = false ∧ read v = some a := by
  rw [member?_eq, Option.map_eq_some_iff] at h
  obtain ⟨values, hvalues, hlast⟩ := h
  have hmem : some a ∈ values := List.mem_of_getLast? (Option.join_eq_some_iff.mp hlast)
  obtain ⟨v, -, hv⟩ := exists_of_mem_of_mapM hvalues hmem
  cases hnull : v.isNull with
  | true => simp [hnull] at hv
  | false => exact ⟨v, hnull, by simpa [hnull] using hv⟩

end Json

end NodeInventory
