import EventSourcing.Proofs.Account.Shapes
import EventSourcing.Proofs.Text.ByteOrder

/-!
What a schema finds wrong.
A payload conforms to a schema if its kind is right and, where it is an object, each declared field
is as it should be and no other is there, unless others are allowed. All that fails is reported,
each fault once, at the path of its field. Faults come in the order of the places where they are:
the declared fields in the order of their declaration, with all that is wrong inside a field in its
place, and after them the unknown fields in the order of the bytes of their names.
-/
namespace EventSourcing

/-- In an object, and in the objects that are its fields, the fields stand in order. -/
inductive Json.Tidy : Json → Prop where
  | object {fields : List (String × Json)} (order : (Json.obj fields).InOrder)
      (inside : ∀ f ∈ fields, Tidy f.2) : Tidy (.obj fields)
  | plain {j : Json} (plain : ∀ fields, j ≠ .obj fields) : Tidy j

theorem Json.tidy_obj_iff {fields : List (String × Json)} :
    (Json.obj fields).Tidy ↔ (Json.obj fields).InOrder ∧ ∀ f ∈ fields, f.2.Tidy := by
  refine ⟨fun tidy => ?_, fun h => .object h.1 h.2⟩
  cases tidy with
  | object order inside => exact ⟨order, inside⟩
  | plain plain => exact absurd rfl (plain fields)

namespace Schema

/-- A field may be given as null where it need not be there at all. -/
def Field.LeavesOut (d : Field) (v : Json) : Prop := d.required = false ∧ v = .null

instance (d : Field) (v : Json) : Decidable (d.LeavesOut v) :=
  decidable_of_iff (d.required = false ∧ FieldKind.null.accepts v = true)
    (and_congr_right' Account.accepts_null)

/-- A payload is as a schema says. -/
inductive Conforms : Schema → Json → Prop where
  | plain {s : Schema} {j : Json} (kind : s.root.accepts j = true)
      (plain : ∀ present, j ≠ .obj present) : Conforms s j
  | object {s : Schema} {present : List (String × Json)}
      (kind : s.root.accepts (.obj present) = true)
      (absent : ∀ d ∈ s.fields, Json.field? d.name present = none → d.required = false)
      (kinds : ∀ d ∈ s.fields, ∀ v, Json.field? d.name present = some v →
        d.LeavesOut v ∨ d.kind.accepts v = true)
      (inside : ∀ d ∈ s.fields, ∀ v, Json.field? d.name present = some v → ¬d.LeavesOut v →
        ∀ t, d.inner = some t → Conforms t v)
      (known : s.allowsExtra = true ∨ ∀ f ∈ present, ∃ d ∈ s.fields, d.name = f.1) :
      Conforms s (.obj present)

/-- A step into an object: to the field that some declaration is about, by the number of the
declaration, or to a field that none is about. -/
inductive Step where
  | declared (i : Nat)
  | unknown (name : String)

/-- Declared fields come in the order of their declaration, and the others after them in the order
of the bytes of their names. -/
def Step.Before : Step → Step → Prop
  | .declared i, .declared j => i < j
  | .declared _, .unknown _ => True
  | .unknown _, .declared _ => False
  | .unknown m, .unknown n => Text.bytes m < Text.bytes n

/-- Something that is wrong with a payload: the way to its place, the names of the fields on this
way, and what is wrong there. -/
structure Fault where
  place : List Step
  names : List String
  complaint : Complaint

/-- A path shows the names on the way with dots between them; empty names at its start are left
out. -/
def dotted (names : List String) : String := ".".intercalate (names.dropWhile (· = ""))

namespace Fault

def Precedes (x y : Fault) : Prop := x.place.Lex Step.Before y.place

/-- The fault as it is seen from the object that has its place as a field. -/
def under (x : Fault) (step : Step) (name : String) : Fault :=
  ⟨step :: x.place, name :: x.names, x.complaint⟩

def violation (x : Fault) : Violation := ⟨dotted x.names, x.complaint⟩

end Fault

mutual

/-- What is wrong with a payload. -/
inductive Fails : Schema → Json → Fault → Prop where
  | kind {s : Schema} {j : Json} (kind : s.root.accepts j = false) :
      Fails s j ⟨[], [], .wrongKind s.root (.ofJson j)⟩
  | field {s : Schema} {present : List (String × Json)} {i : Nat} {d : Field} {x : Fault}
      (kind : s.root.accepts (.obj present) = true) (declared : s.fields[i]? = some d)
      (fault : FieldFails present i d x) : Fails s (.obj present) x
  | unknown {s : Schema} {present : List (String × Json)} {name : String} {v : Json}
      (kind : s.root.accepts (.obj present) = true) (closed : s.allowsExtra = false)
      (there : (name, v) ∈ present) (undeclared : ∀ d ∈ s.fields, d.name ≠ name) :
      Fails s (.obj present) ⟨[.unknown name], [name], .unknown⟩

/-- What is wrong with a declared field. -/
inductive FieldFails : List (String × Json) → Nat → Field → Fault → Prop where
  | missing {present : List (String × Json)} {i : Nat} {d : Field}
      (absent : Json.field? d.name present = none) (required : d.required = true) :
      FieldFails present i d ⟨[.declared i], [d.name], .missing⟩
  | kind {present : List (String × Json)} {i : Nat} {d : Field} {v : Json}
      (there : Json.field? d.name present = some v) (given : ¬d.LeavesOut v)
      (kind : d.kind.accepts v = false) :
      FieldFails present i d ⟨[.declared i], [d.name], .wrongKind d.kind (.ofJson v)⟩
  | inside {present : List (String × Json)} {i : Nat} {d : Field} {v : Json} {t : Schema}
      {x : Fault}
      (there : Json.field? d.name present = some v) (given : ¬d.LeavesOut v)
      (kind : d.kind.accepts v = true) (inner : d.inner = some t) (fault : Fails t v x) :
      FieldFails present i d (x.under (.declared i) d.name)

end

variable {s t : Schema} {d : Field} {j v : Json} {present : List (String × Json)} {i : Nat}
  {x y : Fault} {path : String}

section Induction

theorem sizeOf_inner_lt (hd : d ∈ s.fields) (ht : d.inner = some t) : sizeOf t < sizeOf s := by
  obtain ⟨root, declared, extra⟩ := s
  obtain ⟨name, kind, required, inner⟩ := d
  have small : sizeOf (Field.mk name kind required inner) < sizeOf declared :=
    List.sizeOf_lt_of_mem hd
  have inside : inner = some t := ht
  simp only [inside, Field.mk.sizeOf_spec, Option.some.sizeOf_spec, mk.sizeOf_spec] at small ⊢
  omega

/-- What holds of a schema if it holds of those inside its fields holds of all. -/
@[elab_as_elim]
theorem induct {P : Schema → Prop}
    (step : ∀ s, (∀ d ∈ s.fields, ∀ t, d.inner = some t → P t) → P s) (s : Schema) : P s :=
  step s fun _ hd t ht =>
    have := sizeOf_inner_lt hd ht
    induct step t
termination_by sizeOf s

end Induction

section Places

theorem Step.Before.irrefl (step : Step) : ¬step.Before step := by
  cases step with
  | declared i => exact Nat.lt_irrefl i
  | unknown name => exact List.lt_irrefl (Text.bytes name)

/-- A fault does not come before itself, so that faults in order are all different. -/
theorem Fault.Precedes.ne (h : x.Precedes y) : x ≠ y := by
  rintro rfl
  exact List.lex_irrefl Step.Before.irrefl x.place h

end Places

section Paths

theorem foldl_joinPath_of_ne (names : List String) (h : path ≠ "") :
    names.foldl joinPath path = ".".intercalate (path :: names) := by
  induction names generalizing path with
  | nil => exact String.intercalate_singleton.symm
  | cons name rest ih =>
      have longer : path ++ "." ++ name ≠ "" := fun empty => h (by simp_all)
      rw [List.foldl_cons, joinPath, if_neg h, ih longer, String.intercalate_cons_append,
        String.intercalate_cons_cons]

/-- The path of a payload is empty, and adds no dot. -/
theorem foldl_joinPath (names : List String) : names.foldl joinPath "" = dotted names := by
  induction names with
  | nil => rfl
  | cons name rest ih =>
      rw [List.foldl_cons, joinPath, if_pos rfl, dotted]
      by_cases empty : name = ""
      · rw [List.dropWhile_cons_of_pos (by simp [empty]), empty, ih, dotted]
      · rw [List.dropWhile_cons_of_neg (by simp [empty]), foldl_joinPath_of_ne rest empty]

end Paths

section Conforming

/-- A payload in which nothing is wrong conforms. -/
theorem conforms_of_no_fault (s : Schema) (j : Json) (none : ∀ x, ¬s.Fails j x) : s.Conforms j := by
  induction s using induct generalizing j with | step s ih
  have kind : s.root.accepts j = true := by
    cases kind : s.root.accepts j with
    | true => rfl
    | false => exact absurd (Fails.kind kind) (none _)
  cases j with
  | obj present =>
      have fine {d : Field} (hd : d ∈ s.fields) : ∃ i, ∀ x, ¬FieldFails present i d x := by
        obtain ⟨i, hi⟩ := List.mem_iff_getElem?.1 hd
        exact ⟨i, fun x fault => none x (.field kind hi fault)⟩
      refine .object kind (fun d hd absent => ?_) (fun d hd v there => ?_)
        (fun d hd v there given t inner => ?_) ?_
      · obtain ⟨i, sound⟩ := fine hd
        rw [← Bool.not_eq_true]
        exact fun required => sound _ (.missing absent required)
      · obtain ⟨i, sound⟩ := fine hd
        refine Decidable.or_iff_not_imp_left.2 fun given => ?_
        rw [← Bool.not_eq_false]
        exact fun wrong => sound _ (.kind there given wrong)
      · obtain ⟨i, sound⟩ := fine hd
        refine ih d hd t inner v fun x fault => ?_
        cases kind : d.kind.accepts v with
        | true => exact sound _ (.inside there given kind inner fault)
        | false => exact sound _ (.kind there given kind)
      · cases closed : s.allowsExtra with
        | true => exact .inl rfl
        | false =>
            refine .inr fun f hf => Decidable.byContradiction fun undeclared => ?_
            exact none _ (.unknown kind closed hf fun d hd same => undeclared ⟨d, hd, same⟩)
  | null | bool | int | float | str | arr => exact .plain kind (by simp)

/-- Nothing is wrong in a payload that conforms. -/
theorem Conforms.no_fault (h : s.Conforms j) (x : Fault) : ¬s.Fails j x := by
  induction h generalizing x with
  | plain kind plain =>
      intro fault
      cases fault with
      | kind wrong => cases kind.symm.trans wrong
      | field | unknown => exact plain _ rfl
  | @object s present kind absent kinds inside known ih =>
      intro fault
      cases fault with
      | kind wrong => cases kind.symm.trans wrong
      | field _ declared fault =>
          have hd := List.mem_of_getElem? declared
          cases fault with
          | missing none required => cases (absent _ hd none).symm.trans required
          | kind there given wrong =>
              cases ((kinds _ hd _ there).resolve_left given).symm.trans wrong
          | inside there given _ inner fault => exact ih _ hd _ there given _ inner _ fault
      | unknown _ closed there undeclared =>
          obtain opened | all := known
          · cases opened.symm.trans closed
          · obtain ⟨d, hd, same⟩ := all _ there
            exact undeclared d hd same

theorem conforms_iff (s : Schema) (j : Json) : s.Conforms j ↔ ∀ x, ¬s.Fails j x :=
  ⟨Conforms.no_fault, s.conforms_of_no_fault j⟩

end Conforming

section Listing

/-- The violation that is reported for a fault, seen from a path. -/
def Fault.report (path : String) (x : Fault) : Violation :=
  ⟨x.names.foldl joinPath path, x.complaint⟩

/-- What is reported at any path are these faults, which are all that there are, and if all is in
order, they are. -/
structure Lists (report : String → List Violation) (faults : Fault → Prop) (order : Prop)
    (xs : List Fault) : Prop where
  reported : ∀ path, report path = xs.map (Fault.report path)
  mem : ∀ x, x ∈ xs ↔ faults x
  sorted : order → xs.Pairwise Fault.Precedes

/-- The faults of a payload are reported, and nothing else. -/
abbrev Reports (s : Schema) (j : Json) : List Fault → Prop :=
  Lists (fun path => s.violations path j) (s.Fails j) j.Tidy

/-- The faults of a declared field are reported, and nothing else. -/
abbrev FieldReports (present : List (String × Json)) (i : Nat) (d : Field) : List Fault → Prop :=
  Lists (fun path => violationsOfField path present d) (FieldFails present i d)
    (∀ f ∈ present, f.2.Tidy)

theorem lists_nil {report : String → List Violation} {faults : Fault → Prop} {order : Prop}
    (nothing : ∀ path, report path = []) (none : ∀ x, ¬faults x) : Lists report faults order [] :=
  ⟨nothing, fun x => iff_of_false (by simp) (none x), fun _ => .nil⟩

theorem lists_singleton {report : String → List Violation} {faults : Fault → Prop} {order : Prop}
    (one : ∀ path, report path = [x.report path]) (only : ∀ y, faults y ↔ y = x) :
    Lists report faults order [x] :=
  ⟨one, fun y => List.mem_singleton.trans (only y).symm, fun _ => List.pairwise_singleton ..⟩

theorem violationsOfField_eq (path : String) (present : List (String × Json)) (d : Field) :
    violationsOfField path present d =
      match Json.field? d.name present with
      | none => if d.required then [⟨joinPath path d.name, .missing⟩] else []
      | some v =>
        if d.LeavesOut v then []
        else if d.kind.accepts v then
          match d.inner with
          | none => []
          | some t => t.violations (joinPath path d.name) v
        else [⟨joinPath path d.name, .wrongKind d.kind (.ofJson v)⟩] := by
  obtain ⟨name, kind, required, inner⟩ := d
  rw [violationsOfField]
  change (match Json.field? name present with
      | none => _
      | some v => _) = match Json.field? name present with
      | none => _
      | some v => _
  cases Json.field? name present with
  | none => rfl
  | some v =>
      have leaves : (!required && FieldKind.null.accepts v) = true ↔
          (Field.mk name kind required inner).LeavesOut v := by
        rw [Bool.and_eq_true, Bool.not_eq_true', Account.accepts_null]
        rfl
      simp only [leaves]
      rfl

theorem fieldFails_iff :
    FieldFails present i d x ↔
      match Json.field? d.name present with
      | none => d.required = true ∧ x = ⟨[.declared i], [d.name], .missing⟩
      | some v => ¬d.LeavesOut v ∧
        (d.kind.accepts v = false ∧
            x = ⟨[.declared i], [d.name], .wrongKind d.kind (.ofJson v)⟩ ∨
          d.kind.accepts v = true ∧ ∃ t, d.inner = some t ∧
            ∃ y, t.Fails v y ∧ y.under (.declared i) d.name = x) := by
  constructor
  · intro fault
    cases fault with
    | missing absent required =>
        rw [absent]
        exact ⟨required, rfl⟩
    | kind there given kind =>
        rw [there]
        exact ⟨given, .inl ⟨kind, rfl⟩⟩
    | inside there given kind inner fault =>
        rw [there]
        exact ⟨given, .inr ⟨kind, _, inner, _, fault, rfl⟩⟩
  · cases there : Json.field? d.name present with
    | none =>
        rintro ⟨required, rfl⟩
        exact .missing there required
    | some v =>
        rintro ⟨given, ⟨kind, rfl⟩ | ⟨kind, t, inner, y, fault, rfl⟩⟩
        · exact .kind there given kind
        · exact .inside there given kind inner fault

/-- What is reported of a declared field is what is wrong with it. -/
theorem field_reports (present : List (String × Json)) (i : Nat) (d : Field)
    (inside : ∀ t, d.inner = some t → ∀ v, ∃ xs, t.Reports v xs) :
    ∃ xs, FieldReports present i d xs := by
  cases there : Json.field? d.name present with
  | none =>
      cases required : d.required with
      | true =>
          exact ⟨_, lists_singleton (x := ⟨[.declared i], [d.name], .missing⟩)
            (fun path => by simp [violationsOfField_eq, there, required, Fault.report])
            fun y => by simp [fieldFails_iff, there, required]⟩
      | false =>
          exact ⟨[], lists_nil (fun path => by simp [violationsOfField_eq, there, required])
            fun x => by simp [fieldFails_iff, there, required]⟩
  | some v =>
      by_cases leaves : d.LeavesOut v
      · exact ⟨[], lists_nil (fun path => by simp [violationsOfField_eq, there, leaves])
          fun x => by simp [fieldFails_iff, there, leaves]⟩
      · cases kind : d.kind.accepts v with
        | false =>
            exact ⟨_, lists_singleton
              (x := ⟨[.declared i], [d.name], .wrongKind d.kind (.ofJson v)⟩)
              (fun path => by simp [violationsOfField_eq, there, leaves, kind, Fault.report])
              fun y => by simp [fieldFails_iff, there, leaves, kind]⟩
        | true =>
            cases inner : d.inner with
            | none =>
                exact ⟨[], lists_nil
                  (fun path => by simp [violationsOfField_eq, there, leaves, kind, inner])
                  fun x => by simp [fieldFails_iff, there, leaves, kind, inner]⟩
            | some t =>
                obtain ⟨xs, reported, mem, sorted⟩ := inside t inner v
                refine ⟨xs.map fun x => x.under (.declared i) d.name, fun path => ?_, fun y => ?_,
                  fun tidy => ?_⟩
                · simp only [violationsOfField_eq, there, leaves, kind, inner, if_false, if_true,
                    List.map_map]
                  exact reported _
                · simp [fieldFails_iff, there, leaves, kind, inner, mem]
                · exact List.pairwise_map.2 ((sorted (tidy _ (Json.mem_of_field? there))).imp .cons)

theorem FieldFails.place_eq (h : FieldFails present i d x) :
    ∃ rest, x.place = .declared i :: rest := by
  cases h with
  | missing | kind => exact ⟨[], rfl⟩
  | inside => exact ⟨_, rfl⟩

/-- Declared fields are reported one after the other, their declarations numbered from `i` on. -/
theorem fields_report (present : List (String × Json)) (declared : List Field) (i : Nat)
    (inside : ∀ d ∈ declared, ∀ t, d.inner = some t → ∀ v, ∃ xs, t.Reports v xs) :
    ∃ xs, Lists (fun path => fieldViolations path present declared)
      (fun x => ∃ j d, declared[j]? = some d ∧ FieldFails present (i + j) d x)
      (∀ f ∈ present, f.2.Tidy) xs := by
  induction declared generalizing i with
  | nil => exact ⟨[], lists_nil (fun path => by rw [fieldViolations]) (by simp)⟩
  | cons d rest ih =>
      obtain ⟨xs, reported, mem, sorted⟩ := field_reports present i d (inside d (by simp))
      obtain ⟨ys, reported', mem', sorted'⟩ := ih (i + 1) fun d hd => inside d (by simp [hd])
      refine ⟨xs ++ ys, fun path => ?_, fun x => ?_, fun tidy => ?_⟩
      · rw [fieldViolations, List.map_append, ← reported, ← reported']
      · rw [List.mem_append, mem, mem']
        constructor
        · rintro (first | ⟨j, d', hd', later⟩)
          · exact ⟨0, d, rfl, first⟩
          · exact ⟨j + 1, d', hd', by rwa [Nat.add_comm j, ← Nat.add_assoc]⟩
        · rintro ⟨j, d', hd', fault⟩
          cases j with
          | zero =>
              cases hd'
              exact .inl fault
          | succ j => exact .inr ⟨j, d', hd', by rwa [Nat.add_comm j, ← Nat.add_assoc] at fault⟩
      · refine List.pairwise_append.2 ⟨sorted tidy, sorted' tidy, fun x hx y hy => ?_⟩
        obtain ⟨down, here⟩ := ((mem x).1 hx).place_eq
        obtain ⟨j, d', _, fault⟩ := (mem' y).1 hy
        obtain ⟨down', there⟩ := fault.place_eq
        rw [Fault.Precedes, here, there]
        exact .rel (show i < i + 1 + j by omega)

/-- Fields that are not declared are reported in the order in which they stand. -/
theorem unknown_reports (present : List (String × Json)) (declared : List Field) :
    ∃ xs, Lists (fun path => unknownFields declared path present)
      (fun x => ∃ name v, (name, v) ∈ present ∧ (∀ d ∈ declared, d.name ≠ name) ∧
        x = ⟨[.unknown name], [name], .unknown⟩)
      (Json.obj present).InOrder xs := by
  refine ⟨(present.filter fun f => declared.all fun d => d.name ≠ f.1).map fun f =>
    ⟨[.unknown f.1], [f.1], .unknown⟩, fun path => ?_, fun x => ?_, fun order => ?_⟩
  · rw [unknownFields, List.map_map]
    rfl
  · simp only [List.mem_map, List.mem_filter, List.all_eq_true, decide_eq_true_eq, Prod.exists]
    constructor
    · rintro ⟨name, v, ⟨there, undeclared⟩, rfl⟩
      exact ⟨name, v, there, undeclared, rfl⟩
    · rintro ⟨name, v, there, undeclared, rfl⟩
      exact ⟨name, v, ⟨there, undeclared⟩, rfl⟩
  · refine List.pairwise_map.2 (.imp (fun less => ?_) (List.Pairwise.filter _ order))
    exact .rel ((Text.lt_iff_bytes_lt _ _).1 less)

theorem violations_eq (path : String) (j : Json) (s : Schema) :
    s.violations path j =
      if s.root.accepts j then
        match j with
        | .obj present =>
          fieldViolations path present s.fields ++
            if s.allowsExtra then [] else unknownFields s.fields path present
        | _ => []
      else [⟨path, .wrongKind s.root (.ofJson j)⟩] := by
  cases s
  cases j <;> simp only [violations] <;> rfl

/-- In an object of the right kind, the declared fields come first and then the unknown ones. -/
theorem object_reports (s : Schema) (present : List (String × Json))
    (kind : s.root.accepts (.obj present) = true)
    (inside : ∀ d ∈ s.fields, ∀ t, d.inner = some t → ∀ v, ∃ xs, t.Reports v xs) :
    ∃ xs, s.Reports (.obj present) xs := by
  obtain ⟨xs, reported, mem, sorted⟩ := fields_report present s.fields 0 inside
  simp only [Nat.zero_add] at mem
  cases extra : s.allowsExtra with
  | true =>
      refine ⟨xs, fun path => ?_, fun x => (mem x).trans ⟨?_, fun fault => ?_⟩, fun tidy => ?_⟩
      · simpa [violations_eq, kind, extra] using reported path
      · rintro ⟨i, d, declared, fault⟩
        exact .field kind declared fault
      · cases fault with
        | kind wrong => cases kind.symm.trans wrong
        | field _ declared fault => exact ⟨_, _, declared, fault⟩
        | unknown _ closed => cases extra.symm.trans closed
      · exact sorted (Json.tidy_obj_iff.1 tidy).2
  | false =>
      obtain ⟨ys, reported', mem', sorted'⟩ := unknown_reports present s.fields
      refine ⟨xs ++ ys, fun path => ?_, fun x => ?_, fun tidy => ?_⟩
      · rw [List.map_append, ← reported, ← reported']
        simp [violations_eq, kind, extra]
      · rw [List.mem_append, mem, mem']
        constructor
        · rintro (⟨i, d, declared, fault⟩ | ⟨name, v, there, undeclared, rfl⟩)
          · exact .field kind declared fault
          · exact .unknown kind extra there undeclared
        · intro fault
          cases fault with
          | kind wrong => cases kind.symm.trans wrong
          | field _ declared fault => exact .inl ⟨_, _, declared, fault⟩
          | unknown _ _ there undeclared => exact .inr ⟨_, _, there, undeclared, rfl⟩
      · obtain ⟨order, inside⟩ := Json.tidy_obj_iff.1 tidy
        refine List.pairwise_append.2 ⟨sorted inside, sorted' order, fun x hx y hy => ?_⟩
        obtain ⟨i, d, _, fault⟩ := (mem x).1 hx
        obtain ⟨down, here⟩ := fault.place_eq
        obtain ⟨name, v, _, _, rfl⟩ := (mem' y).1 hy
        rw [Fault.Precedes, here]
        exact .rel trivial

/-- What is reported of a payload is what is wrong with it. -/
theorem reports (s : Schema) (j : Json) : ∃ xs, s.Reports j xs := by
  induction s using induct generalizing j with | step s ih
  cases kind : s.root.accepts j with
  | false =>
      refine ⟨_, lists_singleton (x := ⟨[], [], .wrongKind s.root (.ofJson j)⟩)
        (fun path => by simp [violations_eq, kind, Fault.report]) fun y => ⟨fun fault => ?_, ?_⟩⟩
      · cases fault with
        | kind => rfl
        | field right | unknown right => cases kind.symm.trans right
      · rintro rfl
        exact .kind kind
  | true =>
      cases j with
      | obj present => exact object_reports s present kind fun d hd t inner => ih d hd t inner
      | null | bool | int | float | str | arr =>
          refine ⟨[], lists_nil (fun path => by simp [violations_eq, kind]) fun x fault => ?_⟩
          cases fault with
          | kind wrong => cases kind.symm.trans wrong

end Listing

/-- A payload is accepted if and only if it conforms. If it is refused, each of its faults is a
violation, and there is no other: each once, at its path, and in the order of their places. -/
theorem violations_are_the_faults (s : Schema) (payload : Json) :
    (s.validate payload = .ok () ↔ s.Conforms payload) ∧
      ∃ faults : List Fault, (∀ x, x ∈ faults ↔ s.Fails payload x) ∧
        (payload.Tidy → faults.Nodup ∧ faults.Pairwise Fault.Precedes) ∧
        (¬s.Conforms payload → s.validate payload = .error ⟨faults.map Fault.violation⟩) := by
  obtain ⟨faults, reported, mem, sorted⟩ := s.reports payload
  have all : s.violations "" payload = faults.map Fault.violation := by
    rw [reported]
    exact List.map_congr_left fun x _ => by rw [Fault.report, foldl_joinPath, Fault.violation]
  have fine : s.Conforms payload ↔ faults = [] := by
    rw [conforms_iff, List.eq_nil_iff_forall_not_mem]
    exact forall_congr' fun x => not_congr (mem x).symm
  refine ⟨?_, faults, mem, fun tidy => ⟨(sorted tidy).imp Fault.Precedes.ne, sorted tidy⟩, ?_⟩
  · rw [fine, validate, all]
    cases faults <;> simp
  · rw [fine, validate, all]
    cases faults <;> simp

/-- An id that is declared as an integer and once more as text, an owner with a name, and a note
that may be left out: a wrong id is two violations, and the unknown fields come last at either
depth. -/
theorem violations_at_two_depths :
    let owner := object.require "name" .string
    let s := (((object.require "id" .integer).nested "owner" owner true).optional "note"
      .string).require "id" .string
    let payload := Json.obj [("age", .int 1), ("id", .bool true), ("note", .null),
      ("owner", .obj [("name", .int 3), ("nick", .null)])]
    payload.Tidy ∧ ¬s.Conforms payload ∧
      ∃ faults : List Fault, (∀ x, x ∈ faults ↔ s.Fails payload x) ∧ faults.Nodup ∧
        faults.map Fault.violation =
          [⟨"id", .wrongKind .integer .boolean⟩, ⟨"owner.name", .wrongKind .string .integer⟩,
            ⟨"owner.nick", .unknown⟩, ⟨"id", .wrongKind .string .boolean⟩, ⟨"age", .unknown⟩] := by
  intro owner s payload
  have refused : s.validate payload = .error ⟨[⟨"id", .wrongKind .integer .boolean⟩,
      ⟨"owner.name", .wrongKind .string .integer⟩, ⟨"owner.nick", .unknown⟩,
      ⟨"id", .wrongKind .string .boolean⟩, ⟨"age", .unknown⟩]⟩ := by rfl
  have tidy : payload.Tidy := by
    have ordered (fields : List (String × Json))
        (h : fields.Pairwise fun (f g : String × Json) => f.1 < g.1) :
        (Json.obj fields).InOrder := h
    have inside : (Json.obj [("name", .int 3), ("nick", .null)]).Tidy := by
      refine .object (ordered _ (by decide +kernel)) ?_
      simp only [List.forall_mem_cons]
      exact ⟨.plain (by simp), .plain (by simp), by simp⟩
    refine .object (ordered _ (by decide +kernel)) ?_
    simp only [List.forall_mem_cons]
    exact ⟨.plain (by simp), .plain (by simp), .plain (by simp), inside, by simp⟩
  obtain ⟨accepted, faults, mem, sorted, reported⟩ := violations_are_the_faults s payload
  have wrong : ¬s.Conforms payload := fun conforms => by
    cases refused.symm.trans (accepted.2 conforms)
  refine ⟨tidy, wrong, faults, mem, (sorted tidy).1, ?_⟩
  simpa [refused] using (reported wrong).symm

end Schema
end EventSourcing
