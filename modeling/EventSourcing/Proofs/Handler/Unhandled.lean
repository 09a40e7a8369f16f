import Mathlib.Data.List.Forall2
import EventSourcing.Proofs.Account.Decisions

/-!
Events that a description does not handle.
An event whose type has neither an initializer nor a reducer is skipped by a replay, wherever it
stands in the log. So two logs that differ in such events only stand for the same state, made by the
same events; and a command whose handler decides from the state ends in the same way over both and
appends the same, since its appends expect the head of the log, which counts the skipped events, and
not the revision of the last event that made the state.
-/
namespace EventSourcing

namespace Folding
variable {S : Type}

/-- The second log is the first one with events put in that are not handled. The events that both
have in common need not be the same record. -/
inductive Padded (f : Folding S) (same : RecordedEvent → RecordedEvent → Prop) :
    List RecordedEvent → List RecordedEvent → Prop where
  | nil : Padded f same [] []
  | kept {e e' : RecordedEvent} {log log' : List RecordedEvent} (h : same e e')
      (rest : Padded f same log log') : Padded f same (e :: log) (e' :: log')
  | extra {x : RecordedEvent} {log log' : List RecordedEvent} (h : ¬ f.Handles x.type)
      (rest : Padded f same log log') : Padded f same log (x :: log')

/-- The events of a log that count for the state, from some state on. -/
def counted (f : Folding S) : Option S → List RecordedEvent → List RecordedEvent
  | _, [] => []
  | s, e :: rest =>
    match f.apply s e with
    | .error _ => []
    | .ok none => counted f s rest
    | .ok (some t) => e :: counted f (some t) rest

variable {f : Folding S} {a : AggregateId}

theorem foldlM_counted {log : List RecordedEvent} {r r' : Replay S}
    (h : log.foldlM f.step r = .ok r') :
    r'.applied = r.applied + (f.counted r.state log).length ∧
      r'.revision = headAfter r.revision (f.counted r.state log) := by
  induction log generalizing r with
  | nil =>
      cases h
      exact ⟨rfl, rfl⟩
  | cons e rest ih =>
      rw [List.foldlM_cons, step] at h
      rw [counted]
      cases hs : f.apply r.state e with
      | error err =>
          rw [hs] at h
          cases h
      | ok t =>
          rw [hs] at h
          cases t with
          | none => exact ih (r := { r with head := e.revision, skipped := r.skipped + 1 }) h
          | some t =>
              obtain ⟨applied, revision⟩ := ih (r := { r with
                state := some t, revision := e.revision, head := e.revision,
                applied := r.applied + 1 }) h
              refine ⟨?_, revision.trans (headAfter_cons ..).symm⟩
              rw [applied, List.length_cons, Nat.add_right_comm, Nat.add_assoc]

/-- A replay counts the events that made its state and ends at the revision of the last of them. -/
theorem replay_counted {log : List RecordedEvent} {r : Replay S} (h : f.replay a log = .ok r) :
    let counted := f.counted (f.start a).state log
    r.applied = counted.length ∧ r.revision = headRevision counted := by
  obtain ⟨applied, revision⟩ := foldlM_counted h
  exact ⟨applied.trans (Nat.zero_add _), revision⟩

section Padded
variable {same : RecordedEvent → RecordedEvent → Prop}
  (alike : ∀ e e', same e e' → e.toDomain = e'.toDomain) {log log' : List RecordedEvent}
include alike

theorem Padded.foldlM_applyFact (h : f.Padded same log log') (s : Option S) :
    (log'.map RecordedEvent.toDomain).foldlM
        (fun s e => (f.applyFact s e).map fun t => t.or s) s =
      (log.map RecordedEvent.toDomain).foldlM
        (fun s e => (f.applyFact s e).map fun t => t.or s) s := by
  induction h generalizing s with
  | nil => rfl
  | kept h _ ih =>
      rw [List.map_cons, List.map_cons, List.foldlM_cons, List.foldlM_cons, alike _ _ h]
      exact congrArg _ (funext ih)
  | extra h _ ih =>
      rw [List.map_cons, List.foldlM_cons, ← apply_toDomain, apply_of_not_handles h]
      exact ih s

/-- Events that are not handled change nothing in the state that events make up. -/
theorem Padded.stateOf (h : f.Padded same log log') :
    f.stateOf a (log'.map RecordedEvent.toDomain) = f.stateOf a (log.map RecordedEvent.toDomain) :=
  h.foldlM_applyFact alike _

/-- The same events count, one by one. -/
theorem Padded.counted (h : f.Padded same log log') (s : Option S) :
    List.Forall₂ same (f.counted s log) (f.counted s log') := by
  induction h generalizing s with
  | nil => exact .nil
  | @kept e e' log log' h _ ih =>
      rw [Folding.counted, Folding.counted, apply_toDomain, apply_toDomain, alike _ _ h]
      cases f.applyFact s e'.toDomain with
      | error err => exact .nil
      | ok t =>
          cases t with
          | none => exact ih s
          | some t => exact .cons h (ih (some t))
  | extra h _ ih =>
      rw [Folding.counted, apply_of_not_handles h]
      exact ih s

/-- Where the log can be replayed the padded one can, with the same state made by as many events. -/
theorem Padded.replay (h : f.Padded same log log') {r : Replay S} (hr : f.replay a log = .ok r) :
    ∃ r', f.replay a log' = .ok r' ∧ r'.state = r.state ∧ r'.applied = r.applied := by
  have states := (f.replay_state a log').trans ((h.stateOf alike).trans (f.replay_state a log).symm)
  rw [hr] at states
  cases hr' : f.replay a log' with
  | error e =>
      rw [hr'] at states
      cases states
  | ok r' =>
      rw [hr'] at states
      refine ⟨r', rfl, Except.ok.inj states, ?_⟩
      rw [(replay_counted hr').1, (replay_counted hr).1]
      exact (h.counted alike _).length_eq.symm

end Padded
end Folding

namespace Description
variable {S ε : Type} {d : Description S ε} {a : AggregateId}

/-- The effect of a command depends on the events before it only by the state that they make up. -/
theorem effect_congr {q : CommandRequest S} {facts facts' : List DomainEvent}
    (h : d.stateOf q.target.aggregate facts' = d.stateOf q.target.aggregate facts) :
    d.effect q facts' = d.effect q facts := by
  have later (written : List DomainEvent) :
      d.answerOf (ε := ε) q.target.aggregate (facts' ++ written) =
        d.answerOf q.target.aggregate (facts ++ written) := by
    rw [answerOf, answerOf, Folding.stateOf, Folding.stateOf, List.foldlM_append,
      List.foldlM_append]
    rw [Folding.stateOf, Folding.stateOf] at h
    rw [h]
  have ends (written : List DomainEvent) (ending : Option (Except (CommandError ε) Unit)) :
      d.verdict q.target.aggregate (facts' ++ written) ending =
        d.verdict q.target.aggregate (facts ++ written) ending := by
    cases ending with
    | none => rfl
    | some x =>
        cases x with
        | error e => rfl
        | ok u => exact congrArg some (later written)
  simp only [effect, h, ends]

/-- Two logs of an aggregate, of which the second one has more events, wherever they stand, that the
description does not handle. Replays of both have the same state, made by the same events one by
one, and the revision of each is that of the last event that made it. A command whose handler
decides from the state and the payload ends in the same way over both, unless there are no revisions
left, and appends the same events; over neither it is refused for the head that it expects. -/
theorem unhandled_events_are_invisible {same : RecordedEvent → RecordedEvent → Prop}
    (alike : ∀ e e', same e e' → e.toDomain = e'.toDomain) {w w' : World}
    (padded : d.Padded same (w.log a) (w'.log a)) (clear : w.link.IsClear)
    (clear' : w'.link.IsClear) {q : CommandRequest S} (hq : q.target = .id a)
    (driven : d.Drives q.command) (correlation : Option String) :
    let made := d.counted (d.start a).state (w.log a)
    let made' := d.counted (d.start a).state (w'.log a)
    let dispatch := d.dispatch .direct q
    let dispatch' := d.dispatch .direct { q with correlation }
    (∀ r, d.replay a (w.log a) = .ok r → ∃ r', d.replay a (w'.log a) = .ok r' ∧
      r'.state = r.state ∧ r'.applied = r.applied ∧ List.Forall₂ same made made' ∧
      r.revision = headRevision made ∧ r'.revision = headRevision made' ∧
      ((∀ e e', same e e' → e = e') → r'.revision = r.revision)) ∧
    (dispatch.runHasRoom w = true → dispatch'.runHasRoom w' = true →
      (dispatch'.run w').1.map (Except.map Entity.state) =
        (dispatch.run w).1.map (Except.map Entity.state) ∧
      (∃ written written', (dispatch.run w).2.log a = w.log a ++ written ∧
        (dispatch'.run w').2.log a = w'.log a ++ written' ∧
        written'.map RecordedEvent.toDomain = written.map RecordedEvent.toDomain) ∧
      (dispatch.run w).2.conflicts = w.conflicts ∧
      (dispatch'.run w').2.conflicts = w'.conflicts) := by
  intro made made' dispatch dispatch'
  refine ⟨fun r hr => ?_, fun room room' => ?_⟩
  · obtain ⟨r', hr', state, applied⟩ := padded.replay alike hr
    have counted := padded.counted alike (d.start a).state
    have revision := (Folding.replay_counted hr).2
    have revision' := (Folding.replay_counted hr').2
    refine ⟨r', hr', state, applied, counted, revision, revision', fun literal => ?_⟩
    have equal : made = made' := List.forall₂_eq_eq_eq ▸ counted.imp literal
    exact revision'.trans ((congrArg headRevision equal).symm.trans revision.symm)
  · obtain ⟨only, ⟨ending, written⟩, new, hnew⟩ := Activity.assures_run
      (driven.assures_dispatch StoreAccess.exclusive_direct hq).grows clear room
    obtain ⟨only', ⟨ending', written'⟩, new', hnew'⟩ := Activity.assures_run
      (Drives.assures_dispatch (q := { q with correlation }) StoreAccess.exclusive_direct driven
        hq).grows clear' room'
    have target : q.target.aggregate = a := by rw [hq]; rfl
    have effect : d.effect { q with correlation } ((w'.log a).map RecordedEvent.toDomain) =
        d.effect q ((w.log a).map RecordedEvent.toDomain) :=
      effect_congr (q := q) (by rw [target]; exact padded.stateOf alike)
    rw [effect] at ending' written'
    rw [← hnew, List.map_append] at written
    rw [← hnew', List.map_append] at written'
    refine ⟨ending'.trans ending.symm, ⟨new, new', hnew.symm, hnew'.symm, ?_⟩, only.conflicts,
      only'.conflicts⟩
    exact (List.append_cancel_left written').trans (List.append_cancel_left written).symm

/-- A withdrawal from an account whose log has notes before, between and behind its events. -/
theorem withdrawal_among_notes :
    let a : AggregateId := ⟨"account", "1"⟩
    let event (type : String) (data : Json) (n : Nat) : RecordedEvent :=
      ⟨⟨.nil⟩, a, type, data, ⟨.ofNat n⟩, .ofMillis 0, {}⟩
    let opened := event Account.openedEvent (Account.Opened.toJson ⟨"Ada", 10⟩) 2
    let deposited := event Account.depositedEvent (Account.Amount.toJson ⟨5⟩) 4
    let note := event "noted" .null
    let log := [opened, deposited]
    let log' := [note 1, opened, note 3, deposited, note 5, note 6]
    let world (log : List RecordedEvent) : World :=
      { store.logs := Logs.extend ∅ a log, readings := fun n => ⟨n, 0⟩, shares := fun _ => 0 }
    let dispatch := Account.description.dispatch .direct
      ⟨"withdraw", .id a, Account.Change.toJson ⟨12⟩, none⟩
    Account.description.Padded Eq log log' ∧
      ((dispatch.run (world log)).1.map Except.isOk) = some true ∧
      (dispatch.run (world log')).1.map (Except.map Entity.state) =
        (dispatch.run (world log)).1.map (Except.map Entity.state) ∧
      (dispatch.run (world log')).2.conflicts = (world log').conflicts := by
  intro a event opened deposited note log log' world dispatch
  have ignored (n : Nat) : ¬ Account.description.Handles (note n).type := by
    change ¬ Account.description.Handles "noted"
    exact not_or.2 ⟨by decide +kernel, by decide +kernel⟩
  have padded : Account.description.Padded Eq log log' :=
    .extra (ignored 1) (.kept rfl (.extra (ignored 3) (.kept rfl
      (.extra (ignored 5) (.extra (ignored 6) .nil)))))
  have stored (l : List RecordedEvent) : (world l).log a = l := by
    change ((Assoc.put ∅ a (Logs.log ∅ a ++ l)).get? a).getD [] = l
    rw [Assoc.get?_put, if_pos rfl]
    rfl
  have logs : Account.description.Padded Eq ((world log).log a) ((world log').log a) := by
    rw [stored, stored]
    exact padded
  have laws := (unhandled_events_are_invisible (d := Account.description) (a := a)
    (fun _ _ h => congrArg RecordedEvent.toDomain h) logs ⟨rfl, rfl, rfl⟩ ⟨rfl, rfl, rfl⟩
    (q := ⟨"withdraw", .id a, Account.Change.toJson ⟨12⟩, none⟩) rfl
    (Account.stateDriven _) none).2 (by decide +kernel) (by decide +kernel)
  exact ⟨padded, by decide +kernel, laws.1, laws.2.2.2⟩

end Description
end EventSourcing
