import EventSourcing.Entity.Loader
import EventSourcing.Proofs.Interleaving

/-!
Replays and loads.
The head of a replay is the head of the log that was read, also where the log ends in events that
the state does not depend on. A load over a clear link is the replay of the log as it is stored.
-/
namespace EventSourcing.Folding
variable {S : Type} {f : Folding S} {a : AggregateId}

theorem step_eq_ok {r r' : Replay S} {e : RecordedEvent} (h : f.step r e = .ok r') :
    r'.head = e.revision ∧ r'.aggregate = r.aggregate ∧ r'.type = r.type := by
  rw [step] at h
  cases hs : f.apply r.state e with
  | error err =>
      rw [hs] at h
      cases h
  | ok s =>
      rw [hs] at h
      cases s <;> cases h <;> exact ⟨rfl, rfl, rfl⟩

theorem foldlM_step_eq_ok {log : List RecordedEvent} {r r' : Replay S}
    (h : log.foldlM f.step r = .ok r') :
    r'.head = headAfter r.head log ∧ r'.aggregate = r.aggregate ∧ r'.type = r.type := by
  induction log generalizing r with
  | nil =>
      cases h
      exact ⟨rfl, rfl, rfl⟩
  | cons e rest ih =>
      rw [List.foldlM_cons] at h
      cases hs : f.step r e with
      | error err =>
          rw [hs] at h
          cases h
      | ok r₁ =>
          rw [hs] at h
          obtain ⟨hhead, haggregate, htype⟩ := step_eq_ok hs
          obtain ⟨head, aggregate, type⟩ := ih h
          refine ⟨?_, aggregate.trans haggregate, type.trans htype⟩
          rw [head, hhead, headAfter_cons]

theorem replay_head {log : List RecordedEvent} {r : Replay S} (h : f.replay a log = .ok r) :
    r.head = headRevision log :=
  (foldlM_step_eq_ok h).1

theorem replay_aggregate {log : List RecordedEvent} {r : Replay S}
    (h : f.replay a log = .ok r) : r.aggregate = a :=
  (foldlM_step_eq_ok h).2.1

theorem replay_type {log : List RecordedEvent} {r : Replay S} (h : f.replay a log = .ok r) :
    r.type = f.type :=
  (foldlM_step_eq_ok h).2.2

/-- One more event is applied to what was read before it. -/
theorem replay_concat {log : List RecordedEvent} {r : Replay S} {e : RecordedEvent}
    {s : Option S} (h : f.replay a log = .ok r) (hs : f.apply r.state e = .ok s) :
    ∃ r', f.replay a (log ++ [e]) = .ok r' ∧ r'.state = s.or r.state := by
  have whole : f.replay a (log ++ [e]) = f.step r e := by
    rw [replay_append, h]
    exact bind_pure (f.step r e)
  rw [whole, step, hs]
  cases s with
  | none => exact ⟨_, rfl, rfl⟩
  | some s => exact ⟨_, rfl, rfl⟩

/-- Events of this type count for the state. -/
def Handles (f : Folding S) (type : String) : Prop :=
  (f.initializers.get? type).isSome ∨ (f.reducers.get? type).isSome

theorem apply_of_not_handles {e : RecordedEvent} (h : ¬ f.Handles e.type) (s : Option S) :
    f.apply s e = .ok none := by
  simp only [Handles, not_or, Bool.not_eq_true, Option.isSome_eq_false_iff,
    Option.isNone_iff_eq_none] at h
  cases s with
  | none => rw [apply, h.1]
  | some s => rw [apply, h.2]

section Loads
variable (f a) {w : World}

theorem run_loadReplay (h : w.link.IsClear) (ht : a.type = f.type) :
    (f.loadReplay .direct a).run w =
      (some ((f.replay a (w.log a)).mapError .deserialization), w.loaded) := by
  rw [loadReplay, if_neg (fun hne => hne ht), StoreAccess.direct, Activity.bind, Activity.run,
    World.load_of_isClear h]
  rfl

theorem run_load (h : w.link.IsClear) (ht : a.type = f.type) :
    (f.load .direct a).run w =
      (some (match f.replay a (w.log a) with
        | .error e => .error (.deserialization e)
        | .ok r => match r.entity? with
          | some e => .ok e
          | none => .error (.notAvailable a)), w.loaded) := by
  rw [load, Activity.run_bind, f.run_loadReplay a h ht]
  cases f.replay a (w.log a) with
  | error e => rfl
  | ok r =>
      have kept : (Except.ok r).mapError EntityError.deserialization = .ok r := rfl
      simp only [kept]
      cases r.entity? <;> rfl

variable {f a} in

/-- An entity that was loaded is what the replay of its log made. -/
theorem run_load_eq_ok (h : w.link.IsClear) {e : Entity S} {v : World}
    (hrun : (f.load .direct a).run w = (some (.ok e), v)) :
    ∃ r, f.replay a (w.log a) = .ok r ∧ r.entity? = some e ∧ a.type = f.type ∧ v = w.loaded := by
  by_cases ht : a.type = f.type
  · rw [f.run_load a h ht] at hrun
    cases hr : f.replay a (w.log a) with
    | error err =>
        rw [hr] at hrun
        cases hrun
    | ok r =>
        rw [hr] at hrun
        cases he : r.entity? with
        | none =>
            simp only [he] at hrun
            cases hrun
        | some e' =>
            simp only [he] at hrun
            cases hrun
            exact ⟨r, rfl, he, ht, rfl⟩
  · rw [load, loadReplay, if_pos ht] at hrun
    cases hrun

end Loads

theorem entity?_eq_some {r : Replay S} {e : Entity S} (h : r.entity? = some e) :
    r.state = some e.state ∧ e.head = r.head ∧ e.aggregate = r.aggregate := by
  obtain ⟨s, hs, rfl⟩ := Option.map_eq_some_iff.1 h
  exact ⟨hs, rfl, rfl⟩

end EventSourcing.Folding
