import EventSourcing.Proofs.Account.Handlers
import EventSourcing.Proofs.Handler.Sequence

/-!
What the handlers of accounts decide from.
They look at the state of the account and the payload only, and make up no conflicts.
-/
namespace EventSourcing.Account

section Fair
variable {s : Option Account} {p : Program Refusal}

theorem Fair.agree (h : Fair s p) (a : AggregateId) (name : String) : p.Agree a name p := by
  cases h with
  | done => trivial
  | stop e he => rfl
  | event type data allowed => exact ⟨rfl, fun _ _ => trivial, fun _ => rfl⟩

theorem Fair.candid (h : Fair s p) : p.Candid := by
  cases h with
  | done => trivial
  | stop e he => exact he
  | event type data allowed =>
      intro r hr
      cases r with
      | ok r => trivial
      | error e => exact hr e rfl

end Fair

/-- Entities with the same state are treated alike. -/
theorem program_eq {name : String} {c : Command Account Refusal} {a : AggregateId}
    {payload : Json} {program : Option (Entity Account) → Program Refusal}
    (hc : description.commands.get? name = some c) (prepared : c.prepare a payload = .ok program)
    {e e' : Entity Account} (hs : e.state = e'.state) : program (some e) = program (some e') := by
  rw [command?_eq] at hc
  split at hc
  · cases hc
    obtain ⟨p, _, present, _⟩ := prepare_existing prepared
    rw [present, present, closeProgram, hs, closeProgram]
  · split at hc
    · cases hc
      obtain ⟨p, _, present, _⟩ := prepare_existing prepared
      rw [present, present, withdrawProgram, hs, withdrawProgram]
    · split at hc
      · cases hc
        obtain ⟨p, _, present, _⟩ := prepare_existing prepared
        rw [present, present, depositProgram, hs, depositProgram]
      · split at hc
        · cases hc
          obtain ⟨p, _, same⟩ := prepare_creating prepared
          rw [same, same]
          rfl
        · cases hc

theorem stateDriven : description.StateDriven := fun name =>
  { absent := fun hc hp => (fair_command hc hp none).agree _ _
    present := fun {_ a _ program} hc hp s r r' h h' => by
      have same : program (some ⟨a, description.type, s, r, h⟩) =
          program (some ⟨a, description.type, s, r', h'⟩) := program_eq hc hp rfl
      rw [← same]
      exact (fair_command hc hp _).agree a name }

theorem candid : description.Candid :=
  fun _ _ _ _ _ hc hp found => (fair_command hc hp found).candid

end EventSourcing.Account
