import EventSourcing.Proofs.Account.Payloads
import EventSourcing.Proofs.Entity.Replay

/-!
Lawful logs of accounts.
A log is lawful if each event of an account in it was allowed by the rules of its command in the
state before it; events that accounts do not handle may stand anywhere. A lawful log can be replayed
and stands for the account that the rules speak about, in exact numbers.
-/
namespace EventSourcing.Account

section Lookups
variable (type : String)

theorem initializer?_eq :
    description.initializers.get? type =
      if openedEvent = type then some fun j => (Opened.decode j).map afterOpening else none := by
  simp only [description, Description.withCommand, Description.withCreation,
    Description.withReducer, Description.withInitializer, Folding.withReducer,
    Folding.withInitializer, Description.withEvent, Description.withState, Description.ofType,
    Assoc.get?_put, Assoc.get?_empty]

theorem reducer?_eq :
    description.reducers.get? type =
      if closedEvent = type then some fun a j => (Closed.decode j).map (afterClosing a)
      else if withdrawnEvent = type then some fun a j => (Amount.decode j).map (afterWithdrawal a)
      else if depositedEvent = type then some fun a j => (Amount.decode j).map (afterDeposit a)
      else none := by
  simp only [description, Description.withCommand, Description.withCreation,
    Description.withReducer, Description.withInitializer, Folding.withReducer,
    Folding.withInitializer, Description.withEvent, Description.withState, Description.ofType,
    Assoc.get?_put, Assoc.get?_empty]

theorem handles_iff :
    description.Handles type ↔ type = openedEvent ∨ type = depositedEvent ∨
      type = withdrawnEvent ∨ type = closedEvent := by
  rw [Folding.Handles, initializer?_eq, reducer?_eq]
  grind

end Lookups

section Apply
variable {e : RecordedEvent} {a : Account}

theorem apply_opened {o : Opened} (he : e.toDomain = ⟨openedEvent, o.toJson⟩)
    (h : Word.isInt64 o.initialDeposit = true) :
    description.apply none e = .ok (some (afterOpening o)) := by
  obtain ⟨type, data⟩ := DomainEvent.mk.inj he
  simp only [Folding.apply, initializer?_eq, type, if_true, data, Opened.decode_toJson h]
  rfl

theorem apply_deposited {n : Int} (he : e.toDomain = ⟨depositedEvent, Amount.toJson ⟨n⟩⟩)
    (h : Word.isInt64 n = true) :
    description.apply (some a) e = .ok (some (afterDeposit a ⟨n⟩)) := by
  obtain ⟨type, data⟩ := DomainEvent.mk.inj he
  have reducer : description.reducers.get? e.type =
      some fun a j => (Amount.decode j).map (afterDeposit a) := by
    rw [reducer?_eq, type]
    rfl
  simp only [Folding.apply, reducer, data, Amount.decode_toJson (a := ⟨n⟩) h]
  rfl

theorem apply_withdrawn {n : Int} (he : e.toDomain = ⟨withdrawnEvent, Amount.toJson ⟨n⟩⟩)
    (h : Word.isInt64 n = true) :
    description.apply (some a) e = .ok (some (afterWithdrawal a ⟨n⟩)) := by
  obtain ⟨type, data⟩ := DomainEvent.mk.inj he
  have reducer : description.reducers.get? e.type =
      some fun a j => (Amount.decode j).map (afterWithdrawal a) := by
    rw [reducer?_eq, type]
    rfl
  simp only [Folding.apply, reducer, data, Amount.decode_toJson (a := ⟨n⟩) h]
  rfl

theorem apply_closed {c : Closed} (he : e.toDomain = ⟨closedEvent, c.toJson⟩) :
    description.apply (some a) e = .ok (some { a with status := .closed }) := by
  obtain ⟨type, data⟩ := DomainEvent.mk.inj he
  have reducer : description.reducers.get? e.type =
      some fun a j => (Closed.decode j).map (afterClosing a) := by
    rw [reducer?_eq, type]
    rfl
  simp only [Folding.apply, reducer, data, Closed.decode_toJson]
  rfl

end Apply

/-- An event that the rules allow in a state, and the state after it. -/
inductive Allowed : Option Account → RecordedEvent → Option Account → Prop where
  | other {s : Option Account} {e : RecordedEvent} (he : ¬ description.Handles e.type) :
      Allowed s e s
  | opened {e : RecordedEvent} {o : Opened} (he : e.toDomain = ⟨openedEvent, o.toJson⟩)
      (owner : Text.allBlank o.owner = false) (least : 0 ≤ o.initialDeposit)
      (greatest : o.initialDeposit ≤ Word.greatestInt64) :
      Allowed none e (some ⟨o.owner, o.initialDeposit, .opened⟩)
  | deposited {a : Account} {e : RecordedEvent} {n : Int}
      (he : e.toDomain = ⟨depositedEvent, Amount.toJson ⟨n⟩⟩) (status : a.status = .opened)
      (positive : 0 < n) (room : a.balance + n ≤ Word.greatestInt64) :
      Allowed (some a) e (some { a with balance := a.balance + n })
  | withdrawn {a : Account} {e : RecordedEvent} {n : Int}
      (he : e.toDomain = ⟨withdrawnEvent, Amount.toJson ⟨n⟩⟩) (status : a.status = .opened)
      (positive : 0 < n) (cover : n ≤ a.balance) :
      Allowed (some a) e (some { a with balance := a.balance - n })
  | closed {a : Account} {e : RecordedEvent} {c : Closed}
      (he : e.toDomain = ⟨closedEvent, c.toJson⟩) (status : a.status = .opened)
      (empty : a.balance = 0) : Allowed (some a) e (some { a with status := .closed })

/-- A log all of whose events the rules allowed, and the state that it stands for. -/
inductive Lawful : List RecordedEvent → Option Account → Prop where
  | nil : Lawful [] none
  | snoc {log : List RecordedEvent} {e : RecordedEvent} {s s' : Option Account}
      (h : Lawful log s) (he : Allowed s e s') : Lawful (log ++ [e]) s'

/-- The bounds that the rules keep an account in. -/
structure InBounds (a : Account) : Prop where
  least : 0 ≤ a.balance
  greatest : a.balance ≤ Word.greatestInt64
  owner : Text.allBlank a.owner = false
  empty : a.status = .closed → a.balance = 0

theorem clamp_of_mem {n : Int} (least : 0 ≤ n) (greatest : n ≤ Word.greatestInt64) :
    clamp n = n := by
  simp only [clamp, Word.leastInt64, Word.greatestInt64] at *
  omega

theorem isInt64_of_mem {n : Int} (least : 0 ≤ n) (greatest : n ≤ Word.greatestInt64) :
    Word.isInt64 n = true := by
  have above : Word.leastInt64 ≤ n := by
    simp only [Word.leastInt64]
    omega
  rw [Word.isInt64, decide_eq_true above, decide_eq_true greatest]
  rfl

namespace Allowed
variable {s s' : Option Account} {e : RecordedEvent}

theorem inBounds (h : Allowed s e s') (hs : ∀ a, s = some a → InBounds a) :
    ∀ a, s' = some a → InBounds a := by
  intro a ha
  cases h with
  | other he => exact hs a ha
  | opened he owner least greatest =>
      cases ha
      exact ⟨least, greatest, owner, fun hc => by cases hc⟩
  | deposited he status positive room =>
      cases ha
      have before := hs _ rfl
      have least := before.least
      refine ⟨by dsimp only; omega, room, before.owner, fun hc => ?_⟩
      cases status.symm.trans hc
  | withdrawn he status positive cover =>
      cases ha
      have before := hs _ rfl
      have greatest := before.greatest
      refine ⟨by dsimp only; omega, by dsimp only; omega, before.owner, fun hc => ?_⟩
      cases status.symm.trans hc
  | closed he status empty =>
      cases ha
      have before := hs _ rfl
      exact ⟨before.least, before.greatest, before.owner, fun _ => empty⟩

/-- The reducers agree with the rules: within bounds no amount is ever cut. -/
theorem apply_eq (h : Allowed s e s') (hs : ∀ a, s = some a → InBounds a) :
    ∃ t, description.apply s e = .ok t ∧ t.or s = s' := by
  have after := h.inBounds hs
  cases h with
  | other he => exact ⟨none, Folding.apply_of_not_handles he _, rfl⟩
  | opened he owner least greatest =>
      exact ⟨_, apply_opened he (isInt64_of_mem least greatest), rfl⟩
  | @deposited a _ n he status positive room =>
      have least := (hs a rfl).least
      have exact := clamp_of_mem (n := a.balance + n) (by omega) room
      refine ⟨_, apply_deposited he (isInt64_of_mem (by omega) (by omega)), ?_⟩
      rw [afterDeposit, exact]
      rfl
  | @withdrawn a _ n he status positive cover =>
      have greatest := (hs a rfl).greatest
      have exact := clamp_of_mem (n := a.balance - n) (by omega) (by omega)
      refine ⟨_, apply_withdrawn he (isInt64_of_mem (by omega) (by omega)), ?_⟩
      rw [afterWithdrawal, exact]
      rfl
  | closed he status empty => exact ⟨_, apply_closed he, rfl⟩

end Allowed

namespace Lawful
variable {log : List RecordedEvent} {s : Option Account} {a : Account}

theorem inBounds (h : Lawful log s) : ∀ a, s = some a → InBounds a := by
  induction h with
  | nil => exact fun a ha => by cases ha
  | snoc h he ih => exact he.inBounds ih

/-- A lawful log replays to the account that the rules speak about. -/
theorem replay_eq (h : Lawful log s) (id : AggregateId) :
    ∃ r, description.replay id log = .ok r ∧ r.state = s := by
  induction h with
  | nil => exact ⟨_, rfl, rfl⟩
  | snoc h he ih =>
      obtain ⟨r, hr, rfl⟩ := ih
      obtain ⟨t, ht, rfl⟩ := he.apply_eq h.inBounds
      exact Folding.replay_concat hr ht

/-- A part of a lawful log from its start is lawful. -/
theorem of_part {part : List RecordedEvent} (h : Lawful log s) (hp : part <+: log) :
    ∃ s', Lawful part s' := by
  induction h with
  | nil =>
      rw [List.prefix_nil.1 hp]
      exact ⟨none, .nil⟩
  | snoc h he ih =>
      obtain rfl | hp := List.prefix_concat_iff.1 hp
      · exact ⟨_, .snoc h he⟩
      · exact ih hp

end Lawful
end EventSourcing.Account
