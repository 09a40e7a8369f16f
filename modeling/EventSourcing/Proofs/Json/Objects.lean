import EventSourcing.Json.Basic

/-!
Objects and their fields.
Objects that are made field by field stand in order, and in an object in order a field is found by
its name just where it is one of the fields. So fields can be put into an object and taken out of it,
and those of other names are found as they were.
-/
namespace EventSourcing.Json

theorem mem_of_field? {name : String} {fields : List (String × Json)} {v : Json}
    (h : field? name fields = some v) : (name, v) ∈ fields := by
  induction fields with
  | nil => cases h
  | cons f rest ih =>
      obtain ⟨k, w⟩ := f
      rw [field?] at h
      split at h
      · rename_i hk
        cases hk
        cases h
        exact List.mem_cons_self
      · exact List.mem_cons_of_mem _ (ih h)

/-- The fields of an object stand in the order of their names, each name once. -/
def InOrder : Json → Prop
  | .obj fields => fields.Pairwise fun f g => f.1 < g.1
  | _ => True

theorem mem_insertField {name : String} {v : Json} {fields : List (String × Json)}
    {f : String × Json} (h : f ∈ insertField name v fields) : f.1 = name ∨ f ∈ fields := by
  induction fields with
  | nil =>
      rw [insertField, List.mem_singleton] at h
      exact .inl (congrArg Prod.fst h)
  | cons g rest ih =>
      obtain ⟨k, w⟩ := g
      rw [insertField] at h
      split at h
      · obtain rfl | later := List.mem_cons.1 h
        · exact .inl rfl
        · exact .inr (List.mem_cons_of_mem _ later)
      · split at h
        · obtain rfl | later := List.mem_cons.1 h
          · exact .inl rfl
          · exact .inr later
        · obtain rfl | later := List.mem_cons.1 h
          · exact .inr List.mem_cons_self
          · exact (ih later).imp id (List.mem_cons_of_mem _)

theorem inOrder_insertField {name : String} {v : Json} {fields : List (String × Json)}
    (h : (obj fields).InOrder) : (obj (insertField name v fields)).InOrder := by
  induction fields with
  | nil => exact List.pairwise_singleton ..
  | cons g rest ih =>
      obtain ⟨k, w⟩ := g
      obtain ⟨first, rest_inOrder⟩ := List.pairwise_cons.1 h
      rw [insertField]
      split
      · rename_i same
        subst same
        exact List.pairwise_cons.2 ⟨first, rest_inOrder⟩
      · rename_i other
        split
        · rename_i before
          refine List.pairwise_cons.2 ⟨fun f hf => ?_, h⟩
          obtain rfl | later := List.mem_cons.1 hf
          · exact before
          · exact String.lt_trans before (first f later)
        · rename_i after
          have behind : k < name := Std.lt_of_le_of_ne (Std.not_lt.1 after) other
          refine List.pairwise_cons.2 ⟨fun f hf => ?_, ih rest_inOrder⟩
          obtain new | old := mem_insertField hf
          · rw [new]
            exact behind
          · exact first f old

/-- Whatever fields an object is made of, it keeps them in order. -/
theorem inOrder_object (fields : List (String × Json)) : (object fields).InOrder := by
  have step : ∀ acc : List (String × Json), (obj acc).InOrder →
      (obj (fields.foldl (fun acc f => insertField f.1 f.2 acc) acc)).InOrder := by
    induction fields with
    | nil => exact fun _ h => h
    | cons f rest ih => exact fun acc h => ih _ (inOrder_insertField h)
  exact step [] .nil

theorem field?_append (name : String) (before after : List (String × Json)) :
    field? name (before ++ after) = (field? name before).or (field? name after) := by
  induction before with
  | nil => rfl
  | cons f rest ih =>
      obtain ⟨k, v⟩ := f
      rw [List.cons_append, field?, field?, ih]
      split <;> rfl

/-- Of the fields that an object is made of, the last of a name is found. -/
theorem get?_object (fields : List (String × Json)) (name : String) :
    (object fields).get? name = field? name fields.reverse := by
  have step : ∀ acc : List (String × Json),
      field? name (fields.foldl (fun acc f => insertField f.1 f.2 acc) acc) =
        field? name (fields.reverse ++ acc) := by
    induction fields with
    | nil => exact fun _ => rfl
    | cons f rest ih =>
        intro acc
        rw [List.foldl_cons, ih, List.reverse_cons, List.append_assoc, field?_append, field?_append,
          field?_insertField]
        rfl
  rw [object, get?, step, List.append_nil]

/-- In an object in order each field is the one that its name finds. -/
theorem field?_of_mem {fields : List (String × Json)} (h : (obj fields).InOrder) {name : String}
    {v : Json} (member : (name, v) ∈ fields) : field? name fields = some v := by
  induction fields with
  | nil => cases member
  | cons f rest ih =>
      obtain ⟨k, w⟩ := f
      obtain ⟨first, rest_inOrder⟩ := List.pairwise_cons.1 h
      rw [field?]
      obtain here | later := List.mem_cons.1 member
      · cases here
        rw [if_pos rfl]
      · have other : k ≠ name := by
          intro same
          have behind := first _ later
          rw [same] at behind
          exact String.lt_irrefl _ behind
        rw [if_neg other]
        exact ih rest_inOrder later

/-- An object with further fields; one that has the name of an earlier field replaces it. -/
def setAll (j : Json) (fields : List (String × Json)) : Json :=
  fields.foldl (fun j f => j.set f.1 f.2) j

/-- An object without the fields of a name. -/
def without (name : String) : Json → Json
  | .obj fields => .obj (fields.filter fun f => f.1 ≠ name)
  | j => j

section Changes
variable {fields : List (String × Json)} {name other : String}

theorem setAll_obj (inOrder : (obj fields).InOrder) (extra : List (String × Json)) :
    ∃ all, (obj fields).setAll extra = .obj all ∧ (obj all).InOrder ∧
      ∀ name, (∀ f ∈ extra, f.1 ≠ name) → field? name all = field? name fields := by
  induction extra generalizing fields with
  | nil => exact ⟨fields, rfl, inOrder, fun _ _ => rfl⟩
  | cons f rest ih =>
      obtain ⟨all, made, ordered, same⟩ := ih (inOrder_insertField inOrder)
      refine ⟨all, made, ordered, fun name others => ?_⟩
      obtain ⟨first, later⟩ := List.forall_mem_cons.1 others
      rw [same name later, field?_insertField, if_neg first]

theorem field?_filter_ne :
    field? other (fields.filter fun f => f.1 ≠ name) =
      if other = name then none else field? other fields := by
  induction fields with
  | nil => simp [field?]
  | cons f rest ih =>
      obtain ⟨k, v⟩ := f
      by_cases gone : k = name
      · rw [List.filter_cons_of_neg (by simpa using gone), ih, field?]
        split
        · rfl
        · rename_i kept
          rw [if_neg fun same => kept (same.symm.trans gone)]
      · rw [List.filter_cons_of_pos (by simpa using gone), field?, field?, ih]
        split
        · rename_i same
          rw [if_neg fun h => gone (same.trans h)]
        · rfl

theorem without_obj (inOrder : (obj fields).InOrder) (name : String) :
    ∃ rest, (obj fields).without name = .obj rest ∧ (obj rest).InOrder ∧
      ∀ other, field? other rest = if other = name then none else field? other fields :=
  ⟨_, rfl, List.Pairwise.filter _ inOrder, fun _ => field?_filter_ne⟩

end Changes
end EventSourcing.Json
