import EventSourcing.Proofs.Account.Handlers
import EventSourcing.Proofs.Account.Requests

/-!
What the schemas of account commands let through.
A schema knows integers of any size, while an amount is a signed word of 64 bits: that is the one
thing for which a payload that a schema accepts may still be turned down when the command is read
from it. A deposit that is given as null is left open here; its schema takes null for the absence of
the field, and the command that is read does not.
-/
namespace EventSourcing

namespace Json

/-- All integers among the fields of an object are signed words of 64 bits. -/
def InWords (j : Json) : Prop := ∀ name n, j.get? name = some (.int n) → Word.isInt64 n = true

theorem inWords_iff {fields : List (String × Json)} (h : (obj fields).InOrder) :
    (obj fields).InWords ↔ ∀ name n, (name, .int n) ∈ fields → Word.isInt64 n = true :=
  ⟨fun words name n member => words name n (field?_of_mem h member),
    fun words name n found => words name n (mem_of_field? found)⟩

end Json

namespace Schema
variable {path : String} {declared : List Field} {present : List (String × Json)}

/-- A declared field in which nothing is wrong is of its kind, or it is optional and null or not
there. -/
theorem field_fits {d : Field} (h : violationsOfField path present d = []) :
    match Json.field? d.name present with
    | none => d.required = false
    | some v => d.kind.accepts v = true ∨ d.required = false ∧ v = .null := by
  obtain ⟨name, kind, required, inner⟩ := d
  rw [violationsOfField] at h
  change match Json.field? name present with
    | none => required = false
    | some v => kind.accepts v = true ∨ required = false ∧ v = .null
  cases found : Json.field? name present with
  | none =>
      rw [found] at h
      cases required with
      | false => rfl
      | true => cases h
  | some v =>
      rw [found] at h
      by_cases fits : kind.accepts v = true
      · exact .inl fits
      · by_cases absent : (!required && FieldKind.null.accepts v) = true
        · obtain ⟨optional, null⟩ := (Bool.and_eq_true ..).mp absent
          exact .inr ⟨(Bool.not_eq_true' _).mp optional, Account.accepts_null.1 null⟩
        · simp [fits, absent] at h

/-- Each field of an object that is accepted is declared, and of its kind or null. -/
theorem declared_of_mem (inOrder : (Json.obj present).InOrder)
    (accepted : (mk .object declared false).validate (.obj present) = .ok ())
    {name : String} {v : Json} (member : (name, v) ∈ present) :
    ∃ d ∈ declared, d.name = name ∧ (d.kind.accepts v = true ∨ d.required = false ∧ v = .null) := by
  obtain ⟨fits, known⟩ := validate_obj.1 accepted
  obtain ⟨d, hd, rfl⟩ := known _ member
  have fits := field_fits (fits d hd)
  rw [Json.field?_of_mem inOrder member] at fits
  exact ⟨d, hd, rfl, fits⟩

/-- A required field is there. -/
theorem required_of_accepted
    (accepted : (mk .object declared false).validate (.obj present) = .ok ()) {d : Field}
    (hd : d ∈ declared) (required : d.required = true) :
    ∃ v, Json.field? d.name present = some v ∧ d.kind.accepts v = true := by
  have fits := field_fits ((validate_obj.1 accepted).1 d hd)
  rw [required] at fits
  cases found : Json.field? d.name present with
  | none =>
      rw [found] at fits
      cases fits
  | some v =>
      rw [found] at fits
      obtain fits | ⟨optional, _⟩ := fits
      · exact ⟨v, rfl, fits⟩
      · cases optional

end Schema

namespace Account

theorem accepts_integer_iff {j : Json} :
    FieldKind.integer.accepts j = true ↔ ∃ n, j = .int n := by
  cases j <;> simp [FieldKind.accepts]

theorem isSome_amount?_int {n : Int} : (amount? (.int n)).isSome ↔ Word.isInt64 n = true := by
  rw [amount?]
  split <;> simp_all

theorem amount?_of_isInt64 {n : Int} (h : Word.isInt64 n = true) : amount? (.int n) = some n := by
  rw [amount?, if_pos h]

section Accepted
variable {payload : Json} (inOrder : payload.InOrder)
include inOrder

theorem change_read_iff (accepted : changeSchema.validate payload = .ok ()) :
    (∃ c, Change.decode payload = .ok c) ↔ payload.InWords := by
  have schema : changeSchema = .mk .object [.mk "amount" .integer true none] false := rfl
  rw [schema] at accepted
  obtain ⟨fields, rfl⟩ := Schema.isObject_of_validate accepted
  have amounts : ∀ {name v}, (name, v) ∈ fields → name = "amount" ∧ ∃ n, v = .int n := by
    intro name v member
    obtain ⟨d, hd, rfl, fits⟩ := Schema.declared_of_mem inOrder accepted member
    cases List.mem_singleton.1 hd
    obtain fits | ⟨optional, _⟩ := fits
    · exact ⟨rfl, accepts_integer_iff.1 fits⟩
    · cases optional
  rw [Json.inWords_iff inOrder]
  constructor
  · intro ⟨c, decoded⟩ name n member
    obtain ⟨rfl, _⟩ := amounts member
    exact isSome_amount?_int.1 ((Change.decode_obj_iff.1 decoded).1 _ member)
  · intro words
    obtain ⟨v, found, integer⟩ :=
      Schema.required_of_accepted accepted (List.mem_singleton_self _) rfl
    obtain ⟨n, rfl⟩ := accepts_integer_iff.1 integer
    refine ⟨⟨n⟩, Change.decode_obj_iff.2 ⟨fun v member => ?_, ?_⟩⟩
    · obtain ⟨_, m, rfl⟩ := amounts member
      exact isSome_amount?_int.2 (words _ m member)
    · change Json.field? "amount" fields = _ at found
      rw [found]
      exact amount?_of_isInt64 (words _ n (Json.mem_of_field? found))

theorem open_read_iff (given : payload.get? "initial_deposit" ≠ some .null)
    (accepted : openSchema.validate payload = .ok ()) :
    (∃ c, Open.decode payload = .ok c) ↔ payload.InWords := by
  have schema : openSchema = .mk .object
    [.mk "owner" .string true none, .mk "initial_deposit" .integer false none] false := rfl
  rw [schema] at accepted
  obtain ⟨fields, rfl⟩ := Schema.isObject_of_validate accepted
  have kinds : ∀ {name v}, (name, v) ∈ fields →
      (name = "owner" ∧ (text? v).isSome) ∨ (name = "initial_deposit" ∧ ∃ n, v = .int n) := by
    intro name v member
    obtain ⟨d, hd, rfl, fits⟩ := Schema.declared_of_mem inOrder accepted member
    obtain rfl | last := List.mem_cons.1 hd
    · obtain fits | ⟨optional, _⟩ := fits
      · exact .inl ⟨rfl, accepts_string.symm.trans fits⟩
      · cases optional
    · cases List.mem_singleton.1 last
      obtain fits | ⟨_, rfl⟩ := fits
      · exact .inr ⟨rfl, accepts_integer_iff.1 fits⟩
      · exact absurd (Json.field?_of_mem inOrder member) given
  rw [Json.inWords_iff inOrder]
  constructor
  · intro ⟨c, decoded⟩ name n member
    obtain ⟨rfl, text⟩ | ⟨rfl, _⟩ := kinds member
    · cases text
    · exact isSome_amount?_int.1 ((Open.decode_obj_iff.1 decoded).2.1 _ member)
  · intro words
    obtain ⟨v, found, string⟩ := Schema.required_of_accepted accepted List.mem_cons_self rfl
    rw [Schema.Field.name] at found
    obtain ⟨owner, text⟩ := Option.isSome_iff_exists.1 (accepts_string.symm.trans string)
    refine ⟨⟨owner, _⟩, Open.decode_obj_iff.2 ⟨fun v member => ?_, fun v member => ?_, ?_, rfl⟩⟩
    · obtain ⟨_, text⟩ | ⟨other, _⟩ := kinds member
      · exact text
      · exact absurd other (by decide)
    · obtain ⟨other, _⟩ | ⟨_, n, rfl⟩ := kinds member
      · exact absurd other (by decide)
      · exact isSome_amount?_int.2 (words _ n member)
    · rw [found]
      exact text

theorem close_read (accepted : closeSchema.validate payload = .ok ()) :
    (∃ c, Close.decode payload = .ok c) ∧ payload.InWords := by
  have schema : closeSchema = .mk .object [.mk "reason" .string false none] false := rfl
  rw [schema] at accepted
  obtain ⟨fields, rfl⟩ := Schema.isObject_of_validate accepted
  have reasons : ∀ {name v}, (name, v) ∈ fields → v = .null ∨ (text? v).isSome := by
    intro name v member
    obtain ⟨d, hd, rfl, fits⟩ := Schema.declared_of_mem inOrder accepted member
    cases List.mem_singleton.1 hd
    obtain fits | ⟨_, rfl⟩ := fits
    · exact .inr (accepts_string.symm.trans fits)
    · exact .inl rfl
  rw [Json.inWords_iff inOrder]
  refine ⟨⟨⟨_⟩, Close.decode_obj_iff.2 ⟨fun v member => reasons member, rfl⟩⟩, ?_⟩
  intro name n member
  obtain null | text := reasons member
  · cases null
  · cases text

end Accepted

/-- A command can be prepared where its payload can be decoded. -/
theorem existing_prepares_iff {P : Type} {schema : Schema} {decode : Decoder P}
    {handle : Entity Account → P → Program Refusal} {a : AggregateId} {payload : Json} :
    (∃ program, Command.prepare ⟨schema, .existing fun j => (decode j).map fun p e => handle e p⟩ a
      payload = .ok program) ↔ ∃ p, decode payload = .ok p := by
  rw [Command.prepare]
  cases h : decode payload <;> simp [Except.map, h]

theorem creating_prepares_iff {P : Type} {schema : Schema} {decode : Decoder P}
    {handle : Option (Entity Account) → P → Program Refusal} {a : AggregateId} {payload : Json} :
    (∃ program, Command.prepare ⟨schema, .creating fun j => (decode j).map fun p e => handle e p⟩ a
      payload = .ok program) ↔ ∃ p, decode payload = .ok p := by
  rw [Command.prepare]
  cases h : decode payload <;> simp [Except.map, h]

/-- A payload that the schema of its command accepts can be read if all its integers are signed
words of 64 bits, and only then. A closing has no integers. -/
theorem accepted_payloads_are_read {payload : Json} (inOrder : payload.InOrder) :
    (payload.get? "initial_deposit" ≠ some .null → openSchema.validate payload = .ok () →
      ((∃ c, Open.decode payload = .ok c) ↔ payload.InWords)) ∧
    (changeSchema.validate payload = .ok () →
      ((∃ c, Change.decode payload = .ok c) ↔ payload.InWords)) ∧
    (closeSchema.validate payload = .ok () → ∃ c, Close.decode payload = .ok c) ∧
    ∀ name c a, description.commands.get? name = some c → c.schema.validate payload = .ok () →
      (name = "open" → payload.get? "initial_deposit" ≠ some .null) →
      ((∃ program, c.prepare a payload = .ok program) ↔ payload.InWords) := by
  refine ⟨open_read_iff inOrder, change_read_iff inOrder,
    fun accepted => (close_read inOrder accepted).1, ?_⟩
  intro name c a hc accepted given
  rw [command?_eq] at hc
  split at hc
  · cases hc
    obtain ⟨read, words⟩ := close_read inOrder accepted
    exact existing_prepares_iff.trans (iff_of_true read words)
  · split at hc
    · cases hc
      exact existing_prepares_iff.trans (change_read_iff inOrder accepted)
    · split at hc
      · cases hc
        exact existing_prepares_iff.trans (change_read_iff inOrder accepted)
      · split at hc
        · rename_i opens
          cases hc
          exact creating_prepares_iff.trans (open_read_iff inOrder (given opens.symm) accepted)
        · cases hc

/-- An account can be opened with the greatest amount. -/
theorem greatest_deposit_is_read :
    let payload := Json.object
      [("owner", .str "ann"), ("initial_deposit", .int Word.greatestInt64)]
    openSchema.validate payload = .ok () ∧ payload.InOrder ∧
      payload.get? "initial_deposit" ≠ some .null ∧ ∃ c, Open.decode payload = .ok c := by
  intro payload
  have inOrder : payload.InOrder := Json.inOrder_object _
  have given : payload.get? "initial_deposit" ≠ some .null := by
    intro null
    cases null
  refine ⟨rfl, inOrder, given, ?_⟩
  refine ((accepted_payloads_are_read inOrder).1 given rfl).2 ?_
  intro name n found
  change Json.field? name (Json.insertField "initial_deposit" (.int Word.greatestInt64)
    (Json.insertField "owner" (.str "ann") [])) = some (.int n) at found
  rw [Json.field?_insertField, Json.field?_insertField] at found
  split at found
  · cases found
    rfl
  · split at found <;> cases found

/-- The first integer beyond the greatest amount passes the schema of a deposit and cannot be
read. -/
theorem not_all_accepted_payloads_are_read :
    ¬ ∀ name c a payload, payload.InOrder → description.commands.get? name = some c →
      c.schema.validate payload = .ok () → ∃ program, c.prepare a payload = .ok program := by
  intro read
  have prepared := read "deposit" _ ⟨typeName, "1"⟩
    (Json.object [("amount", .int (Word.greatestInt64 + 1))]) (Json.inOrder_object _)
    (command?_eq "deposit") rfl
  obtain ⟨c, decoded⟩ := existing_prepares_iff.1 prepared
  cases decoded

end Account
end EventSourcing
