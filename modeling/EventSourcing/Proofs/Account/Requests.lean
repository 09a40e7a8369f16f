import EventSourcing.Account.Commands
import EventSourcing.Proofs.Account.Payloads

/-!
Payloads of account commands.
What a payload asks for can be said without schemas and decoders: it is an object, each of its
fields has a name and a value that the command knows, and none that the command needs is missing.
The schema and the decoder of a command accept just these payloads, and read the same from them.
-/
namespace EventSourcing

namespace Schema
variable {declared : List Field} {path : String} {present : List (String × Json)}

theorem unknownFields_eq_nil_iff :
    unknownFields declared path present = [] ↔ ∀ f ∈ present, ∃ d ∈ declared, d.name = f.1 := by
  simp [unknownFields]

theorem fieldViolations_eq_nil_iff :
    fieldViolations path present declared = [] ↔
      ∀ d ∈ declared, violationsOfField path present d = [] := by
  induction declared with
  | nil => simp [fieldViolations]
  | cons d rest ih => simp [fieldViolations, ih]

theorem violationsOfField_required {name : String} {kind : FieldKind} {v : Json}
    (hv : Json.field? name present = some v) (h : kind.accepts v = true) :
    violationsOfField path present (.mk name kind true none) = [] := by
  simp [violationsOfField, hv, h]

/-- Null or nothing will do for an optional field. -/
theorem violationsOfField_optional {name : String} {kind : FieldKind}
    (h : ∀ v, Json.field? name present = some v → v = .null ∨ kind.accepts v = true) :
    violationsOfField path present (.mk name kind false none) = [] := by
  rw [violationsOfField]
  cases hv : Json.field? name present with
  | none => rfl
  | some v =>
      obtain rfl | fits := h v hv
      · rfl
      · simp [fits]

theorem validate_eq_ok_iff {s : Schema} {j : Json} :
    s.validate j = .ok () ↔ s.violations "" j = [] := by
  rw [validate]
  split
  · rename_i h
    exact iff_of_true rfl h
  · rename_i h
    refine iff_of_false (fun hok => ?_) h
    cases hok

/-- An object of declared fields only. -/
theorem validate_obj :
    (mk .object declared false).validate (.obj present) = .ok () ↔
      (∀ d ∈ declared, violationsOfField "" present d = []) ∧
        ∀ f ∈ present, ∃ d ∈ declared, d.name = f.1 := by
  simp [validate_eq_ok_iff, violations, FieldKind.accepts, fieldViolations_eq_nil_iff,
    unknownFields_eq_nil_iff]

theorem isObject_of_validate {j : Json} (h : (mk .object declared false).validate j = .ok ()) :
    ∃ present, j = .obj present := by
  cases j with
  | obj present => exact ⟨present, rfl⟩
  | null | bool b | int n | float x | str s | arr items =>
      simp [validate_eq_ok_iff, violations, FieldKind.accepts] at h

end Schema

namespace Account

/-- A text. -/
def text? : Json → Option String
  | .str s => some s
  | _ => none

/-- A number that an amount can be. -/
def amount? : Json → Option Int
  | .int n => if Word.isInt64 n then some n else none
  | _ => none

/-- The fields of an object, if each of them fits. -/
def fieldsOf? (fits : String → Json → Bool) : Json → Option (List (String × Json))
  | .obj fields => if fields.all fun f => fits f.1 f.2 then some fields else none
  | _ => none

/-- An owner is needed; without a deposit it is zero. -/
def Open.read? (j : Json) : Option Open := do
  let fields ← fieldsOf? (fun name v => name = "owner" && (text? v).isSome ||
    name = "initial_deposit" && (amount? v).isSome) j
  let owner ← (Json.field? "owner" fields).bind text?
  return ⟨owner, ((Json.field? "initial_deposit" fields).bind amount?).getD 0⟩

/-- An amount is needed. -/
def Change.read? (j : Json) : Option Change := do
  let fields ← fieldsOf? (fun name v => name = "amount" && (amount? v).isSome) j
  let amount ← (Json.field? "amount" fields).bind amount?
  return ⟨amount⟩

/-- A reason can be given, and null is none. -/
def Close.read? (j : Json) : Option Close := do
  let fields ← fieldsOf? (fun name v => name = "reason" &&
    ((text? v).isSome || FieldKind.null.accepts v)) j
  return ⟨(Json.field? "reason" fields).bind text?⟩

section Values
variable {j : Json}

theorem text_eq_ok_iff {s : String} : Decoder.text j = .ok s ↔ text? j = some s := by
  cases j <;> simp [Decoder.text, text?]

theorem int64_eq_ok_iff {n : Int} : Decoder.int64 j = .ok n ↔ amount? j = some n := by
  cases j with
  | int m =>
      rw [Decoder.int64, amount?]
      split <;> simp
  | _ => simp [Decoder.int64, amount?]

theorem optional_text_eq_ok_iff {o : Option String} :
    Decoder.optional Decoder.text j = .ok o ↔ (j = .null ∨ (text? j).isSome) ∧ text? j = o := by
  cases j <;> simp [Decoder.optional, Decoder.text, text?, Except.map, eq_comm]

theorem accepts_string : FieldKind.string.accepts j = (text? j).isSome := by
  cases j <;> rfl

theorem accepts_integer (h : (amount? j).isSome) : FieldKind.integer.accepts j = true := by
  cases j <;> first | rfl | cases h

theorem accepts_null : FieldKind.null.accepts j = true ↔ j = .null := by
  cases j <;> simp [FieldKind.accepts]

end Values

theorem Change.decode_obj_iff {fields : List (String × Json)} {c : Change} :
    decode (.obj fields) = .ok c ↔
      (∀ v, ("amount", v) ∈ fields → (amount? v).isSome) ∧
        (Json.field? "amount" fields).bind amount? = some c.amount := by
  have list : (mk <$> Decoder.Fields.required "amount" Decoder.int64).list =
    [⟨"amount", .missing, fun j => (Decoder.int64 j).map fun _ => ()⟩] := rfl
  rw [decode, Decoder.record_obj_eq_ok_iff, list, Decoder.checkPresent_eq_ok_iff (by simp),
    Decoder.checkMissing_eq_ok_iff, Decoder.Fields.build_map_iff]
  simp [Decoder.check_eq_ok_iff, Decoder.Fields.build_required_iff, int64_eq_ok_iff,
    Option.bind_eq_some_iff, Option.isSome_iff_exists]
  grind

theorem Close.decode_obj_iff {fields : List (String × Json)} {c : Close} :
    decode (.obj fields) = .ok c ↔
      (∀ v, ("reason", v) ∈ fields → v = .null ∨ (text? v).isSome) ∧
        (Json.field? "reason" fields).bind text? = c.reason := by
  have list : (mk <$> Decoder.Fields.optional "reason" Decoder.text).list =
    [⟨"reason", .none, fun j => (Decoder.optional Decoder.text j).map fun _ => ()⟩] := rfl
  rw [decode, Decoder.record_obj_eq_ok_iff, list, Decoder.checkPresent_eq_ok_iff (by simp),
    Decoder.checkMissing_eq_ok_iff, Decoder.Fields.build_map_iff]
  simp [Decoder.check_eq_ok_iff, Decoder.Fields.build_optional_iff, optional_text_eq_ok_iff,
    Option.isSome_iff_exists]
  intro fits
  obtain ⟨reason⟩ := c
  cases hv : Json.field? "reason" fields with
  | none => simp
  | some v => simpa using fun _ => fits v (Json.mem_of_field? hv)

theorem Open.decode_obj_iff {fields : List (String × Json)} {c : Open} :
    decode (.obj fields) = .ok c ↔
      (∀ v, ("owner", v) ∈ fields → (text? v).isSome) ∧
        (∀ v, ("initial_deposit", v) ∈ fields → (amount? v).isSome) ∧
        (Json.field? "owner" fields).bind text? = some c.owner ∧
        ((Json.field? "initial_deposit" fields).bind amount?).getD 0 = c.initialDeposit := by
  have list : (mk <$> Decoder.Fields.required "owner" Decoder.text
      <*> Decoder.Fields.withDefault "initial_deposit" Decoder.int64 0).list =
    [⟨"owner", .missing, fun j => (Decoder.text j).map fun _ => ()⟩,
      ⟨"initial_deposit", .default, fun j => (Decoder.int64 j).map fun _ => ()⟩] := rfl
  rw [decode, Decoder.record_obj_eq_ok_iff, list, Decoder.checkPresent_eq_ok_iff (by simp),
    Decoder.checkMissing_eq_ok_iff, Decoder.Fields.build_map_seq_iff]
  simp [Decoder.check_eq_ok_iff, Decoder.Fields.build_required_iff,
    Decoder.Fields.build_withDefault_iff, text_eq_ok_iff, int64_eq_ok_iff,
    Option.bind_eq_some_iff, Option.isSome_iff_exists]
  obtain ⟨owner, deposit⟩ := c
  cases hv : Json.field? "initial_deposit" fields with
  | none => grind
  | some v =>
      have member := Json.mem_of_field? hv
      grind

theorem Open.read?_obj_iff {fields : List (String × Json)} {c : Open} :
    read? (.obj fields) = some c ↔
      (∀ f ∈ fields, f.1 = "owner" ∨ f.1 = "initial_deposit") ∧ decode (.obj fields) = .ok c := by
  obtain ⟨owner, deposit⟩ := c
  simp only [read?, fieldsOf?, decode_obj_iff, Option.bind_eq_bind, Option.bind_eq_some_iff,
    Option.pure_def, Option.some.injEq, mk.injEq, Option.ite_none_right_eq_some, List.all_eq_true,
    Prod.forall]
  grind

theorem Change.read?_obj_iff {fields : List (String × Json)} {c : Change} :
    read? (.obj fields) = some c ↔
      (∀ f ∈ fields, f.1 = "amount") ∧ decode (.obj fields) = .ok c := by
  obtain ⟨amount⟩ := c
  simp only [read?, fieldsOf?, decode_obj_iff, Option.bind_eq_bind, Option.bind_eq_some_iff,
    Option.pure_def, Option.some.injEq, mk.injEq, Option.ite_none_right_eq_some, List.all_eq_true,
    Prod.forall]
  grind

theorem Close.read?_obj_iff {fields : List (String × Json)} {c : Close} :
    read? (.obj fields) = some c ↔
      (∀ f ∈ fields, f.1 = "reason") ∧ decode (.obj fields) = .ok c := by
  obtain ⟨reason⟩ := c
  simp only [read?, fieldsOf?, decode_obj_iff, Option.bind_eq_bind, Option.bind_eq_some_iff,
    Option.pure_def, Option.some.injEq, mk.injEq, Option.ite_none_right_eq_some, List.all_eq_true,
    Prod.forall, Bool.and_eq_true, Bool.or_eq_true, accepts_null]
  grind

theorem isObject_of_fieldsOf? {fits : String → Json → Bool} {j : Json}
    {fields : List (String × Json)} (h : fieldsOf? fits j = some fields) : j = .obj fields := by
  cases j with
  | obj present =>
      rw [fieldsOf?] at h
      split at h <;> cases h
      rfl
  | null | bool b | int n | float x | str s | arr items => cases h

/-- The schema and the decoder of the command accept what is read, and nothing else. -/
theorem Open.read?_eq_some_iff {j : Json} {c : Open} :
    read? j = some c ↔ openSchema.validate j = .ok () ∧ decode j = .ok c := by
  have schema : openSchema = .mk .object
    [.mk "owner" .string true none, .mk "initial_deposit" .integer false none] false := rfl
  rw [schema]
  constructor
  · intro h
    obtain ⟨fields, hfields, _⟩ := Option.bind_eq_some_iff.1 h
    obtain rfl := isObject_of_fieldsOf? hfields
    obtain ⟨known, decoded⟩ := read?_obj_iff.1 h
    obtain ⟨_, deposits, owner, _⟩ := decode_obj_iff.1 decoded
    obtain ⟨v, hv, htext⟩ := Option.bind_eq_some_iff.1 owner
    refine ⟨Schema.validate_obj.2 ⟨?_, fun f hf => ?_⟩, decoded⟩
    · rw [List.forall_mem_cons, List.forall_mem_singleton]
      refine ⟨Schema.violationsOfField_required hv ?_, Schema.violationsOfField_optional ?_⟩
      · rw [accepts_string, htext]
        rfl
      · intro w hw
        exact .inr (accepts_integer (deposits w (Json.mem_of_field? hw)))
    · simpa [Schema.Field.name, eq_comm] using known f hf
  · intro ⟨valid, decoded⟩
    obtain ⟨fields, rfl⟩ := Schema.isObject_of_validate valid
    obtain ⟨_, known⟩ := Schema.validate_obj.1 valid
    refine read?_obj_iff.2 ⟨fun f hf => ?_, decoded⟩
    simpa [Schema.Field.name, eq_comm] using known f hf

theorem Change.read?_eq_some_iff {j : Json} {c : Change} :
    read? j = some c ↔ changeSchema.validate j = .ok () ∧ decode j = .ok c := by
  have schema : changeSchema = .mk .object [.mk "amount" .integer true none] false := rfl
  rw [schema]
  constructor
  · intro h
    obtain ⟨fields, hfields, _⟩ := Option.bind_eq_some_iff.1 h
    obtain rfl := isObject_of_fieldsOf? hfields
    obtain ⟨known, decoded⟩ := read?_obj_iff.1 h
    obtain ⟨amounts, amount⟩ := decode_obj_iff.1 decoded
    obtain ⟨v, hv, _⟩ := Option.bind_eq_some_iff.1 amount
    refine ⟨Schema.validate_obj.2 ⟨?_, fun f hf => ?_⟩, decoded⟩
    · rw [List.forall_mem_singleton]
      apply Schema.violationsOfField_required hv
      exact accepts_integer (amounts v (Json.mem_of_field? hv))
    · simpa [Schema.Field.name, eq_comm] using known f hf
  · intro ⟨valid, decoded⟩
    obtain ⟨fields, rfl⟩ := Schema.isObject_of_validate valid
    obtain ⟨_, known⟩ := Schema.validate_obj.1 valid
    refine read?_obj_iff.2 ⟨fun f hf => ?_, decoded⟩
    simpa [Schema.Field.name, eq_comm] using known f hf

theorem Close.read?_eq_some_iff {j : Json} {c : Close} :
    read? j = some c ↔ closeSchema.validate j = .ok () ∧ decode j = .ok c := by
  have schema : closeSchema = .mk .object [.mk "reason" .string false none] false := rfl
  rw [schema]
  constructor
  · intro h
    obtain ⟨fields, hfields, _⟩ := Option.bind_eq_some_iff.1 h
    obtain rfl := isObject_of_fieldsOf? hfields
    obtain ⟨known, decoded⟩ := read?_obj_iff.1 h
    obtain ⟨reasons, _⟩ := decode_obj_iff.1 decoded
    refine ⟨Schema.validate_obj.2 ⟨?_, fun f hf => ?_⟩, decoded⟩
    · rw [List.forall_mem_singleton]
      apply Schema.violationsOfField_optional
      intro v hv
      rw [accepts_string]
      exact reasons v (Json.mem_of_field? hv)
    · simpa [Schema.Field.name, eq_comm] using known f hf
  · intro ⟨valid, decoded⟩
    obtain ⟨fields, rfl⟩ := Schema.isObject_of_validate valid
    obtain ⟨_, known⟩ := Schema.validate_obj.1 valid
    refine read?_obj_iff.2 ⟨fun f hf => ?_, decoded⟩
    simpa [Schema.Field.name, eq_comm] using known f hf

end Account
end EventSourcing
