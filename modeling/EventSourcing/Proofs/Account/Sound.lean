import Mathlib.Algebra.Ring.Int.Defs
import EventSourcing.Proofs.Account.Lawful

/-!
What a lawful log says.
An account is opened once, before anything else happens to it, and nothing happens to it after it
was closed. Its balance is what was deposited less what was withdrawn, in exact numbers.
-/
namespace EventSourcing.Account

/-- The amount that an event holds, if it holds one. -/
def amountIn (data : Json) : Int :=
  match Amount.decode data with
  | .ok a => a.amount
  | .error _ => 0

/-- The sum of the amounts in the events of one type. -/
def moved (type : String) (log : List RecordedEvent) : Int :=
  ((log.filter fun e => e.type = type).map fun e => amountIn e.data).sum

theorem moved_concat (type : String) (log : List RecordedEvent) (e : RecordedEvent) :
    moved type (log ++ [e]) = moved type log + if e.type = type then amountIn e.data else 0 := by
  by_cases h : e.type = type <;> simp [moved, h]

theorem moved_concat_of_ne {type : String} {log : List RecordedEvent} {e : RecordedEvent}
    (h : e.type ≠ type) : moved type (log ++ [e]) = moved type log := by
  rw [moved_concat, if_neg h, Int.add_zero]

theorem moved_eq_zero {type : String} {log : List RecordedEvent}
    (h : ∀ x ∈ log, x.type ≠ type) : moved type log = 0 := by
  have none : log.filter (fun e => e.type = type) = [] := by
    rw [List.filter_eq_nil_iff]
    intro x hx
    simpa using h x hx
  rw [moved, none]
  rfl

theorem amountIn_toJson {n : Int} (h : Word.isInt64 n = true) :
    amountIn (Amount.toJson ⟨n⟩) = n := by
  rw [amountIn, Amount.decode_toJson (a := ⟨n⟩) h]

/-- What is true of a log that an account may have. -/
structure Sound (a : AggregateId) (log : List RecordedEvent) : Prop where
  replays : ∃ r, description.replay a log = .ok r
  /-- Nothing happens to an account before its opening; so there is one opening at most. -/
  openedFirst : ∀ before e after, log = before ++ e :: after → e.type = openedEvent →
    ∀ x ∈ before, ¬ description.Handles x.type
  openedOnce : (log.filter fun e => e.type = openedEvent).length ≤ 1
  closedLast : ∀ before e after, log = before ++ e :: after → e.type = closedEvent →
    ∀ x ∈ after, ¬ description.Handles x.type
  state : ∀ r s, description.replay a log = .ok r → r.state = some s →
    InBounds s ∧ ∃ e ∈ log, ∃ o, e.type = openedEvent ∧ Opened.decode e.data = .ok o ∧
      s.owner = o.owner ∧
      s.balance = o.initialDeposit + moved depositedEvent log - moved withdrawnEvent log

namespace Allowed
variable {s s' : Option Account} {e : RecordedEvent}

/-- What an event of an account can do: it opens the account where there is none, or it happens to
an open one, which it leaves open unless it closes it. -/
theorem handled (h : Allowed s e s') (he : description.Handles e.type) :
    (s = none ∧ e.type = openedEvent ∧ ∃ a, s' = some a ∧ a.status = .opened) ∨
      ∃ a b, s = some a ∧ a.status = .opened ∧ s' = some b ∧ e.type ≠ openedEvent ∧
        (e.type = closedEvent ↔ b.status = .closed) := by
  cases h with
  | other hne => exact absurd he hne
  | opened he => exact .inl ⟨rfl, (DomainEvent.mk.inj he).1, _, rfl, rfl⟩
  | deposited he status =>
      refine .inr ⟨_, _, rfl, status, rfl, ?_⟩
      rw [(DomainEvent.mk.inj he).1]
      simp [depositedEvent, openedEvent, closedEvent, status]
  | withdrawn he status =>
      refine .inr ⟨_, _, rfl, status, rfl, ?_⟩
      rw [(DomainEvent.mk.inj he).1]
      simp [withdrawnEvent, openedEvent, closedEvent, status]
  | closed he status =>
      refine .inr ⟨_, _, rfl, status, rfl, ?_⟩
      rw [(DomainEvent.mk.inj he).1]
      simp [openedEvent, closedEvent]

theorem unhandled (h : Allowed s e s') (he : ¬ description.Handles e.type) : s' = s := by
  rw [handles_iff] at he
  cases h with
  | other => rfl
  | opened hx | deposited hx | withdrawn hx | closed hx =>
      rw [(DomainEvent.mk.inj hx).1] at he
      simp at he

end Allowed

namespace Lawful
variable {log : List RecordedEvent} {s : Option Account}

theorem untouched (h : Lawful log none) : ∀ x ∈ log, ¬ description.Handles x.type := by
  generalize hs : none = s at h
  induction h with
  | nil => exact fun x hx => by cases hx
  | @snoc log e s s' h he ih =>
      subst hs
      by_cases handled : description.Handles e.type
      · obtain ⟨_, _, a, ha, _⟩ | ⟨_, b, _, _, hb, _⟩ := he.handled handled
        · cases ha
        · cases hb
      · have before := ih (he.unhandled handled)
        intro x hx
        obtain hx | hx := List.mem_append.1 hx
        · exact before x hx
        · rw [List.mem_singleton.1 hx]
          exact handled

theorem not_closed (h : Lawful log s) :
    ∀ a, s = some a → a.status = .opened → ∀ x ∈ log, x.type ≠ closedEvent := by
  have handles_closed : description.Handles closedEvent := by
    rw [handles_iff]
    simp
  induction h with
  | nil => exact fun a ha => by cases ha
  | @snoc log e s s' h he ih =>
      intro a ha status x hx
      subst ha
      by_cases handled : description.Handles e.type
      · obtain ⟨rfl, opens, _⟩ | ⟨b, c, rfl, hb, hc, _, closes⟩ := he.handled handled
        · obtain hx | hx := List.mem_append.1 hx
          · intro hclosed
            exact h.untouched x hx (hclosed ▸ handles_closed)
          · rw [List.mem_singleton.1 hx, opens]
            decide
        · cases hc
          obtain hx | hx := List.mem_append.1 hx
          · exact ih b rfl hb x hx
          · rw [List.mem_singleton.1 hx]
            intro hclosed
            cases status.symm.trans (closes.1 hclosed)
      · obtain hx | hx := List.mem_append.1 hx
        · exact ih a (he.unhandled handled).symm status x hx
        · rw [List.mem_singleton.1 hx]
          intro hclosed
          exact handled (hclosed ▸ handles_closed)

theorem opened_first (h : Lawful log s) : ∀ before e after, log = before ++ e :: after →
    e.type = openedEvent → ∀ x ∈ before, ¬ description.Handles x.type := by
  induction h with
  | nil => exact fun before e after hlog => by simp at hlog
  | @snoc log e s s' h he ih =>
      intro before x after hlog opens
      obtain ⟨_, rfl, rfl⟩ | ⟨init, _, hinit⟩ := concat_eq_append_cons hlog
      · have handled : description.Handles x.type := (handles_iff _).2 (.inl opens)
        obtain ⟨rfl, _⟩ | ⟨_, _, _, _, _, hne, _⟩ := he.handled handled
        · exact h.untouched
        · exact absurd opens hne
      · exact ih before x init hinit opens

theorem opened_once (h : Lawful log s) :
    (log.filter fun e => e.type = openedEvent).length ≤ 1 := by
  induction h with
  | nil => exact Nat.zero_le 1
  | @snoc log e s s' h he ih =>
      by_cases opens : e.type = openedEvent
      · have handled : description.Handles e.type := (handles_iff _).2 (.inl opens)
        obtain ⟨rfl, _⟩ | ⟨_, _, _, _, _, hne, _⟩ := he.handled handled
        · have none : log.filter (fun e => e.type = openedEvent) = [] := by
            rw [List.filter_eq_nil_iff]
            intro x hx hopens
            exact h.untouched x hx ((handles_iff _).2 (.inl (by simpa using hopens)))
          simp [none, opens]
        · exact absurd opens hne
      · simpa [opens] using ih

theorem closed_last (h : Lawful log s) : ∀ before e after, log = before ++ e :: after →
    e.type = closedEvent → ∀ x ∈ after, ¬ description.Handles x.type := by
  induction h with
  | nil => exact fun before e after hlog => by simp at hlog
  | @snoc log e s s' h he ih =>
      intro before x after hlog closes y hy
      obtain ⟨rfl, _, _⟩ | ⟨init, rfl, hinit⟩ := concat_eq_append_cons hlog
      · cases hy
      · obtain hy | hy := List.mem_append.1 hy
        · exact ih before x init hinit closes y hy
        · rw [List.mem_singleton.1 hy]
          intro handled
          have hx : x ∈ log := by rw [hinit]; simp
          obtain ⟨rfl, _⟩ | ⟨a, _, rfl, status, _⟩ := he.handled handled
          · exact h.untouched x hx ((handles_iff _).2 (by simp [closes]))
          · exact h.not_closed a rfl status x hx closes

/-- The books balance. -/
theorem balance (h : Lawful log s) : ∀ a, s = some a →
    ∃ e ∈ log, ∃ o, e.type = openedEvent ∧ Opened.decode e.data = .ok o ∧ a.owner = o.owner ∧
      a.balance = o.initialDeposit + moved depositedEvent log - moved withdrawnEvent log := by
  induction h with
  | nil => exact fun a ha => by cases ha
  | @snoc log e s s' h he ih =>
      intro a ha
      cases he with
      | other he =>
          rw [handles_iff] at he
          obtain ⟨x, hx, o, opens, decoded, owner, balance⟩ := ih a ha
          refine ⟨x, by simp [hx], o, opens, decoded, owner, ?_⟩
          rw [moved_concat_of_ne fun hd => he (by simp [hd]),
            moved_concat_of_ne fun hw => he (by simp [hw]), balance]
      | @opened _ o he owner least greatest =>
          cases ha
          obtain ⟨type, data⟩ := DomainEvent.mk.inj he
          have nothing (t : String) (ht : description.Handles t) : moved t log = 0 :=
            moved_eq_zero fun x hx heq => h.untouched x hx (heq ▸ ht)
          refine ⟨e, by simp, o, type, ?_, rfl, ?_⟩
          · rw [data, Opened.decode_toJson (isInt64_of_mem least greatest)]
          · rw [moved_concat_of_ne (by rw [type]; decide), moved_concat_of_ne (by rw [type]; decide),
              nothing depositedEvent (by simp [handles_iff]),
              nothing withdrawnEvent (by simp [handles_iff])]
            simp
      | @deposited b _ n he status positive room =>
          cases ha
          obtain ⟨type, data⟩ := DomainEvent.mk.inj he
          obtain ⟨x, hx, o, opens, decoded, owner, balance⟩ := ih b rfl
          have least := (h.inBounds b rfl).least
          refine ⟨x, by simp [hx], o, opens, decoded, owner, ?_⟩
          rw [moved_concat, if_pos type, moved_concat_of_ne (by rw [type]; decide), data,
            amountIn_toJson (isInt64_of_mem (by omega) (by omega))]
          dsimp only
          omega
      | @withdrawn b _ n he status positive cover =>
          cases ha
          obtain ⟨type, data⟩ := DomainEvent.mk.inj he
          obtain ⟨x, hx, o, opens, decoded, owner, balance⟩ := ih b rfl
          have greatest := (h.inBounds b rfl).greatest
          refine ⟨x, by simp [hx], o, opens, decoded, owner, ?_⟩
          rw [moved_concat withdrawnEvent, if_pos type, moved_concat_of_ne (by rw [type]; decide),
            data, amountIn_toJson (isInt64_of_mem (by omega) (by omega))]
          dsimp only
          omega
      | @closed b _ c he status empty =>
          cases ha
          obtain ⟨type, data⟩ := DomainEvent.mk.inj he
          obtain ⟨x, hx, o, opens, decoded, owner, balance⟩ := ih b rfl
          refine ⟨x, by simp [hx], o, opens, decoded, owner, ?_⟩
          rw [moved_concat_of_ne (by rw [type]; decide), moved_concat_of_ne (by rw [type]; decide)]
          exact balance

/-- A lawful log is sound, and so is each part of it from its start. -/
theorem sound (h : Lawful log s) (id : AggregateId) : Sound id log where
  replays := by
    obtain ⟨r, hr, _⟩ := h.replay_eq id
    exact ⟨r, hr⟩
  openedFirst := h.opened_first
  openedOnce := h.opened_once
  closedLast := h.closed_last
  state r a hr ha := by
    obtain ⟨r', hr', hs⟩ := h.replay_eq id
    cases hr.symm.trans hr'
    have state := hs.symm.trans ha
    exact ⟨h.inBounds a state, h.balance a state⟩

end Lawful
end EventSourcing.Account
