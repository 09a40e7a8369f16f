import EventSourcing.Event
import EventSourcing.Proofs.Json.Records
import EventSourcing.Proofs.Text.Identifiers
import EventSourcing.Proofs.Timestamp.Text

/-!
Events as data values.
A recorded event is read back from its data value, and so are its parts. Only the fields that an
event has count there: others may be added, and its metadata may be left out where both ids are
absent.
-/
namespace EventSourcing

theorem Decoder.ulid_text (u : Ulid) : ulid (.str u.text) = .ok u := by
  simp only [ulid, text, bind, Except.bind, Ulid.parse_text]
  rfl

theorem EventId.decode_toJson (i : EventId) : decode i.toJson = .ok i := by
  rw [decode, toJson, text, Decoder.ulid_text]
  rfl

theorem Revision.decode_toJson (r : Revision) : decode r.toJson = .ok r := by
  rw [decode, toJson, text, Decoder.ulid_text]
  rfl

/-- An id that is absent stands for none. -/
theorem optionalText_yields {fields : List (String × Json)} {name : String} {o : Option String}
    (found : Json.field? name fields = o.map .str) :
    (Decoder.Fields.withDefault name (.optional .text) none).Yields
      (fun k => Json.field? k fields) o := by
  cases o with
  | none => exact .withDefault_absent found
  | some s => exact .withDefault found rfl

section Fields
variable {fields : List (String × Json)} (inOrder : (Json.obj fields).InOrder)
include inOrder

theorem AggregateId.decode_obj {a : AggregateId}
    (type : Json.field? "type" fields = some (.str a.type))
    (key : Json.field? "key" fields = some (.str a.key)) : decode (.obj fields) = .ok a := by
  refine Decoder.record_of_yields (by decide) inOrder (.seq (.map ?_ mk) ?_)
  · exact .required type rfl
  · exact .required key rfl

theorem DomainEvent.decode_obj {e : DomainEvent}
    (type : Json.field? "type" fields = some (.str e.type))
    (data : Json.field? "data" fields = some e.data) : decode (.obj fields) = .ok e := by
  refine Decoder.record_of_yields (by decide) inOrder (.seq (.map ?_ mk) ?_)
  · exact .required type rfl
  · exact .required data rfl

theorem Metadata.decode_obj {m : Metadata}
    (correlation : Json.field? "correlation_id" fields = m.correlation.map .str)
    (causation : Json.field? "causation_id" fields = m.causation.map .str) :
    decode (.obj fields) = .ok m := by
  refine Decoder.record_of_yields (by decide) inOrder (.seq (.map ?_ mk) ?_)
  · exact optionalText_yields correlation
  · exact optionalText_yields causation

end Fields

theorem AggregateId.decode_toJson (a : AggregateId) : decode a.toJson = .ok a := by
  have type : a.toJson.get? "type" = some (.str a.type) := by
    simp [toJson, Json.get?_object, Json.field?]
  have key : a.toJson.get? "key" = some (.str a.key) := by
    simp [toJson, Json.get?_object, Json.field?]
  exact decode_obj (Json.inOrder_object _) type key

theorem DomainEvent.decode_toJson (e : DomainEvent) : decode e.toJson = .ok e := by
  have type : e.toJson.get? "type" = some (.str e.type) := by
    simp [toJson, Json.get?_object, Json.field?]
  have data : e.toJson.get? "data" = some e.data := by simp [toJson, Json.get?_object, Json.field?]
  exact decode_obj (Json.inOrder_object _) type data

theorem Metadata.decode_toJson (m : Metadata) : decode m.toJson = .ok m := by
  have ids : m.toJson.get? "correlation_id" = m.correlation.map .str ∧
      m.toJson.get? "causation_id" = m.causation.map .str := by
    obtain ⟨correlation, causation⟩ := m
    cases correlation <;> cases causation <;> simp [toJson, Json.get?_object, Json.field?]
  exact decode_obj (Json.inOrder_object _) ids.1 ids.2

namespace RecordedEvent

/-- The names of the fields that an event has in its data value. -/
def fieldNames : List String :=
  ["id", "aggregate", "type", "data", "revision", "timestamp", "metadata"]

variable {e : RecordedEvent}

/-- What is found under the names of the fields. -/
theorem get?_toJson (e : RecordedEvent) :
    e.toJson.get? "id" = some e.id.toJson ∧ e.toJson.get? "aggregate" = some e.aggregate.toJson ∧
      e.toJson.get? "type" = some (.str e.type) ∧ e.toJson.get? "data" = some e.data ∧
      e.toJson.get? "revision" = some e.revision.toJson ∧
      e.toJson.get? "timestamp" = some (.str e.timestamp.text) ∧
      e.toJson.get? "metadata" = some e.metadata.toJson := by
  simp [toJson, Json.get?_object, Json.field?]

section Decode
variable (instant : e.timestamp.IsInstant) (least : 0 ≤ e.timestamp.year)
  (most : e.timestamp.year ≤ 9999)
include instant least most

/-- An event is read from any object in which its fields are found. Metadata without ids need not be
among them. -/
theorem decode_obj {fields : List (String × Json)} (inOrder : (Json.obj fields).InOrder)
    (known : ∀ name ∈ fieldNames, name ≠ "metadata" →
      Json.field? name fields = e.toJson.get? name)
    (metadata : Json.field? "metadata" fields = e.toJson.get? "metadata" ∨
      Json.field? "metadata" fields = none ∧ e.metadata = {}) : decode (.obj fields) = .ok e := by
  obtain ⟨id, aggregate, type, data, revision, timestamp, traced⟩ := e.get?_toJson
  refine Decoder.record_of_yields (by decide) inOrder
    (.seq (.seq (.seq (.seq (.seq (.seq (.map ?_ mk) ?_) ?_) ?_) ?_) ?_) ?_)
  · exact .required ((known "id" (by decide) (by decide)).trans id) e.id.decode_toJson
  · exact .required ((known "aggregate" (by decide) (by decide)).trans aggregate)
      e.aggregate.decode_toJson
  · exact .required ((known "type" (by decide) (by decide)).trans type) rfl
  · exact .required ((known "data" (by decide) (by decide)).trans data) rfl
  · exact .required ((known "revision" (by decide) (by decide)).trans revision)
      e.revision.decode_toJson
  · refine .required ((known "timestamp" (by decide) (by decide)).trans timestamp) ?_
    rw [Decoder.timestamp, Timestamp.parse_text instant least most]
    rfl
  · obtain present | ⟨absent, none⟩ := metadata
    · exact .withDefault (present.trans traced) e.metadata.decode_toJson
    · rw [none]
      exact .withDefault_absent absent

theorem decode_setAll {extra : List (String × Json)} (others : ∀ f ∈ extra, f.1 ∉ fieldNames) :
    decode (e.toJson.setAll extra) = .ok e := by
  obtain ⟨all, made, inOrder, same⟩ := Json.setAll_obj (Json.inOrder_object _) extra
  have known : ∀ name ∈ fieldNames, Json.field? name all = e.toJson.get? name :=
    fun name member => same name fun f hf here => others f hf (here ▸ member)
  change decode (Json.setAll (.obj _) extra) = _
  rw [made]
  exact decode_obj instant least most inOrder (fun name member _ => known name member)
    (.inl (known "metadata" (by decide)))

theorem decode_toJson : decode e.toJson = .ok e :=
  decode_obj instant least most (Json.inOrder_object _) (fun _ _ _ => rfl) (.inl rfl)

theorem decode_without_metadata {extra : List (String × Json)}
    (others : ∀ f ∈ extra, f.1 ∉ fieldNames) (none : e.metadata = {}) :
    decode ((e.toJson.without "metadata").setAll extra) = .ok e := by
  obtain ⟨rest, left, inOrder, found⟩ := Json.without_obj (Json.inOrder_object _) "metadata"
  obtain ⟨all, made, inOrder, same⟩ := Json.setAll_obj inOrder extra
  have known : ∀ name ∈ fieldNames, Json.field? name all = Json.field? name rest :=
    fun name member => same name fun f hf here => others f hf (here ▸ member)
  change decode (Json.setAll (Json.without "metadata" (.obj _)) extra) = _
  rw [left, made]
  refine decode_obj instant least most inOrder (fun name member other => ?_) (.inr ⟨?_, none⟩)
  · rw [known name member, found, if_neg other]
    rfl
  · rw [known "metadata" (by decide), found, if_pos rfl]

end Decode

/-- An event of the years 0 to 9999 is read back from its data value, and so are its domain event,
its aggregate and its metadata. It is also read back if the object has further fields of other
names, and if it has no metadata where both ids are absent. -/
theorem survives_as_data (e : RecordedEvent) (instant : e.timestamp.IsInstant)
    (least : 0 ≤ e.timestamp.year) (most : e.timestamp.year ≤ 9999) :
    decode e.toJson = .ok e ∧
    (∀ extra : List (String × Json), (∀ f ∈ extra, f.1 ∉ fieldNames) →
      decode (e.toJson.setAll extra) = .ok e ∧
      (e.metadata.correlation = none → e.metadata.causation = none →
        decode ((e.toJson.without "metadata").setAll extra) = .ok e)) ∧
    DomainEvent.decode e.toDomain.toJson = .ok e.toDomain ∧
    AggregateId.decode e.aggregate.toJson = .ok e.aggregate ∧
    Metadata.decode e.metadata.toJson = .ok e.metadata := by
  refine ⟨decode_toJson instant least most, fun extra others =>
    ⟨decode_setAll instant least most others, ?_⟩, e.toDomain.decode_toJson,
    e.aggregate.decode_toJson, e.metadata.decode_toJson⟩
  intro correlation causation
  have none : e.metadata = {} := by
    cases h : e.metadata with
    | mk c d =>
        rw [h] at correlation causation
        rw [Metadata.mk.injEq]
        exact ⟨correlation, causation⟩
  exact decode_without_metadata instant least most others none

/-- An event in a leap second, without ids and with a note that no event has. -/
theorem leap_second_survives :
    let e : RecordedEvent := { (default : RecordedEvent) with
      aggregate := ⟨"a.b", ""⟩, type := "noted", data := .arr [.null, Json.object []],
      timestamp := ⟨1483228799, 1250000000⟩ }
    e.timestamp.text = "2016-12-31T23:59:60.250Z" ∧ decode e.toJson = .ok e ∧
      decode ((e.toJson.without "metadata").setAll [("note", .bool true)]) = .ok e := by
  intro e
  have instant : e.timestamp.IsInstant := .inr ⟨by decide, by decide⟩
  obtain ⟨plain, others, _⟩ := survives_as_data e instant (by decide) (by decide)
  refine ⟨by decide +kernel, plain, (others [("note", .bool true)] ?_).2 rfl rfl⟩
  intro f hf
  rw [List.mem_singleton.1 hf]
  decide

end RecordedEvent
end EventSourcing
