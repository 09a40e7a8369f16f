import EventSourcing.Json.Decode
import EventSourcing.Proofs.Json.Objects

/-!
Reading records.
A record is read from an object if its fields are read from what their names find there; nothing
else in the object counts.
-/
namespace EventSourcing

namespace Decoder
variable {α : Type} {list : List Field} {fields : List (String × Json)}

theorem isInt64_of_int64 {j : Json} {n : Int} (h : int64 j = .ok n) : Word.isInt64 n = true := by
  cases j with
  | int m =>
      rw [int64] at h
      split at h
      · cases h
        assumption
      · cases h
  | null | bool b | float x | str s | arr items | obj fields => cases h

theorem int64_of_isInt64 {n : Int} (h : Word.isInt64 n = true) : int64 (.int n) = .ok n := by
  rw [int64, if_pos h]

theorem optional_optionalText (o : Option String) :
    optional text (Json.optionalText o) = .ok o := by
  cases o <;> rfl

/-- A record that was read was built from its fields. -/
theorem build_of_record {name : String} {fs : Fields α} {j : Json} {a : α}
    (h : record name fs j = .ok a) : ∃ get, fs.build get = .ok a := by
  cases j with
  | obj fields =>
      rw [record] at h
      cases hp : checkPresent fs.list fields with
      | error e =>
          rw [hp] at h
          cases h
      | ok u =>
          rw [hp] at h
          cases hm : checkMissing fields fs.list with
          | error e =>
              rw [hm] at h
              cases h
          | ok u =>
              rw [hm] at h
              exact ⟨_, h⟩
  | arr items =>
      rw [record] at h
      cases hi : checkItems name fs.list.length 0 fs.list items with
      | error e =>
          rw [hi] at h
          cases h
      | ok u =>
          rw [hi] at h
          exact ⟨_, h⟩
  | null | bool b | int n | float x | str s => cases h

theorem Fields.build_ap {β : Type} {f : Fields (α → β)} {x : Fields α}
    {get : String → Option Json} {b : β} (h : (f.ap x).build get = .ok b) :
    ∃ g a, f.build get = .ok g ∧ x.build get = .ok a ∧ b = g a := by
  rw [ap] at h
  cases hf : f.build get with
  | error e =>
      simp only [hf, bind, Except.bind] at h
      cases h
  | ok g =>
      cases hx : x.build get with
      | error e =>
          simp only [hf, hx, bind, Except.bind] at h
          cases h
      | ok a =>
          simp only [hf, hx, bind, Except.bind] at h
          cases h
          exact ⟨g, a, rfl, rfl, rfl⟩

theorem find?_eq_some_iff (distinct : (list.map Field.name).Nodup) {name : String} {d : Field} :
    (list.find? fun d => d.name = name) = some d ↔ d ∈ list ∧ d.name = name := by
  induction list with
  | nil => simp
  | cons e rest ih =>
      rw [List.map_cons, List.nodup_cons] at distinct
      rw [List.find?_cons, List.mem_cons]
      by_cases he : e.name = name
      · simp only [he, decide_true, Option.some.injEq]
        refine ⟨fun h => ⟨.inl h.symm, h ▸ he⟩, fun ⟨hd, hname⟩ => ?_⟩
        obtain rfl | hd := hd
        · rfl
        · exact absurd (List.mem_map.2 ⟨d, hd, hname.trans he.symm⟩) distinct.1
      · simp only [he, decide_false, ih distinct.2]
        refine ⟨fun ⟨hd, hname⟩ => ⟨.inr hd, hname⟩, fun ⟨hd, hname⟩ => ⟨?_, hname⟩⟩
        obtain rfl | hd := hd
        · exact absurd hname he
        · exact hd

theorem checkPresent_eq_ok_iff (distinct : (list.map Field.name).Nodup) :
    checkPresent list fields = .ok () ↔
      ∀ d ∈ list, ∀ v, (d.name, v) ∈ fields → d.check v = .ok () := by
  induction fields with
  | nil => exact iff_of_true rfl fun d hd v hv => by cases hv
  | cons f rest ih =>
      obtain ⟨k, v⟩ := f
      have first : checkPresent list ((k, v) :: rest) = .ok () ↔
          (∀ d ∈ list, d.name = k → d.check v = .ok ()) ∧ checkPresent list rest = .ok () := by
        rw [checkPresent]
        simp only [← and_imp, ← find?_eq_some_iff distinct]
        cases list.find? fun d => d.name = k with
        | none => simp [bind, Except.bind]
        | some d => cases hd : d.check v <;> simp [bind, Except.bind, hd]
      rw [first, ih]
      grind

theorem checkMissing_eq_ok_iff :
    checkMissing fields list = .ok () ↔
      ∀ d ∈ list, d.absence = .missing → (Json.field? d.name fields).isSome := by
  induction list with
  | nil => exact iff_of_true rfl fun d hd => by cases hd
  | cons d rest ih =>
      rw [checkMissing, List.forall_mem_cons, ← ih]
      cases hd : Json.field? d.name fields with
      | none => by_cases hm : d.absence = .missing <;> simp [hm]
      | some v => simp

theorem record_obj_eq_ok_iff {name : String} {fs : Fields α} {a : α} :
    record name fs (.obj fields) = .ok a ↔
      checkPresent fs.list fields = .ok () ∧ checkMissing fields fs.list = .ok () ∧
        (fs.build fun k => Json.field? k fields) = .ok a := by
  rw [record]
  cases checkPresent fs.list fields <;> cases checkMissing fields fs.list <;>
    simp [bind, Except.bind]

theorem check_eq_ok_iff {d : Decoder α} {j : Json} :
    ((d j).map fun _ => ()) = .ok () ↔ ∃ a, d j = .ok a := by
  cases d j <;> simp [Except.map]

namespace Fields
variable {β : Type} {get : String → Option Json} {name : String} {d : Decoder α}

theorem build_map_iff {f : α → β} {x : Fields α} {b : β} :
    (f <$> x).build get = .ok b ↔ ∃ a, x.build get = .ok a ∧ f a = b := by
  change ((Except.ok f).bind fun g => (x.build get).bind fun a => .ok (g a)) = .ok b ↔ _
  cases x.build get <;> simp [Except.bind]

theorem build_map_seq_iff {γ : Type} {f : α → β → γ} {x : Fields α} {y : Fields β} {c : γ} :
    (f <$> x <*> y).build get = .ok c ↔
      ∃ a b, x.build get = .ok a ∧ y.build get = .ok b ∧ f a b = c := by
  change (((f <$> x).build get).bind fun g => (y.build get).bind fun b => .ok (g b)) = .ok c ↔ _
  change (((Except.ok f).bind fun g => (x.build get).bind fun a => .ok (g a)).bind fun g =>
    (y.build get).bind fun b => .ok (g b)) = .ok c ↔ _
  cases x.build get <;> cases y.build get <;> simp [Except.bind]

theorem build_required_iff {a : α} :
    (required name d).build get = .ok a ↔ ∃ j, get name = some j ∧ d j = .ok a := by
  simp only [required]
  cases get name <;> simp

theorem build_withDefault_iff {a b : α} :
    (withDefault name d b).build get = .ok a ↔
      match get name with
      | none => b = a
      | some j => d j = .ok a := by
  simp only [withDefault]
  cases get name <;> simp

theorem build_optional_iff {a : Option α} :
    (optional name d).build get = .ok a ↔
      match get name with
      | none => none = a
      | some j => Decoder.optional d j = .ok a := by
  simp only [optional]
  cases get name <;> simp

/-- A value comes of what the names of fields find, and all that is found is read for it. -/
structure Yields (fs : Fields α) (get : String → Option Json) (a : α) : Prop where
  build : fs.build get = .ok a
  checks : ∀ d ∈ fs.list, match get d.name with
    | some j => d.check j = .ok ()
    | none => d.absence ≠ .missing

namespace Yields
variable {j : Json} {f : Fields (α → β)} {x : Fields α} {g : α → β} {a b : α}

theorem seq (hf : f.Yields get g) (hx : x.Yields get a) : (f <*> x).Yields get (g a) where
  build := by
    change ((f.build get).bind fun g => (x.build get).bind fun a => .ok (g a)) = _
    rw [hf.build, hx.build]
    rfl
  checks d hd := by
    obtain hd | hd := List.mem_append.1 hd
    · exact hf.checks d hd
    · exact hx.checks d hd

theorem map (hx : x.Yields get a) (g : α → β) : (g <$> x).Yields get (g a) :=
  seq ⟨rfl, fun _ hd => by cases hd⟩ hx

theorem required (found : get name = some j) (read : d j = .ok a) :
    (Fields.required name d).Yields get a where
  build := build_required_iff.2 ⟨j, found, read⟩
  checks e he := by
    cases List.mem_singleton.1 he
    simp only [found]
    exact check_eq_ok_iff.2 ⟨a, read⟩

theorem optional {a : Option α} (found : get name = some j) (read : Decoder.optional d j = .ok a) :
    (Fields.optional name d).Yields get a where
  build := build_optional_iff.2 (by simpa only [found] using read)
  checks e he := by
    cases List.mem_singleton.1 he
    simp only [found]
    exact check_eq_ok_iff.2 ⟨a, read⟩

theorem withDefault (found : get name = some j) (read : d j = .ok a) :
    (Fields.withDefault name d b).Yields get a where
  build := build_withDefault_iff.2 (by simpa only [found] using read)
  checks e he := by
    cases List.mem_singleton.1 he
    simp only [found]
    exact check_eq_ok_iff.2 ⟨a, read⟩

theorem withDefault_absent (absent : get name = none) :
    (Fields.withDefault name d b).Yields get b where
  build := build_withDefault_iff.2 (by simp only [absent])
  checks e he := by
    cases List.mem_singleton.1 he
    simp only [absent]
    exact fun h => by cases h

end Yields
end Fields

/-- From an object in order a record is read if its fields yield it. -/
theorem record_of_yields {name : String} {fs : Fields α} {a : α}
    (distinct : (fs.list.map Field.name).Nodup) (inOrder : (Json.obj fields).InOrder)
    (yields : fs.Yields (fun k => Json.field? k fields) a) :
    record name fs (.obj fields) = .ok a := by
  refine record_obj_eq_ok_iff.2 ⟨(checkPresent_eq_ok_iff distinct).2 fun d hd v member => ?_,
    checkMissing_eq_ok_iff.2 fun d hd needed => ?_, yields.build⟩
  · have check := yields.checks d hd
    rwa [Json.field?_of_mem inOrder member] at check
  · have check := yields.checks d hd
    cases found : Json.field? d.name fields with
    | some v => rfl
    | none =>
        simp only [found] at check
        exact absurd needed check

end Decoder

end EventSourcing
