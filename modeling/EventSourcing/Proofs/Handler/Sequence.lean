import EventSourcing.Engine.Command
import EventSourcing.Proofs.Handler.Effect

/-!
Commands one after another.
Where the dispatches on an aggregate follow each other and nobody else writes to its log, how each
of them ends and what they leave can be told from the events at the start.
-/
namespace EventSourcing

/-- A call as it is dispatched directly. -/
def CommandCall.direct {S : Type} (c : CommandCall) : CommandRequest S :=
  ⟨c.command, .id c.aggregate, c.payload, none⟩

/-- A program that ends in a conflict only where the store has answered it with one. -/
def Program.Candid {ε : Type} : Program ε → Prop
  | .done | .panic => True
  | .stop e => e.isConflict = false
  | .env k => ∀ env, Candid (k env)
  | .appends k => ∀ n, Candid (k n)
  | .append _ k | .appendWith _ _ k => ∀ r : Except StoreError Revision,
      (∀ e, r = .error e → e.isConflict = false) → Candid (k r)
  | .sleep _ p | .note _ p => Candid p

theorem Program.Candid.solo {ε : Type} {p : Program ε} (h : p.Candid) {a : AggregateId}
    {command : String} {n : Nat} {e : CommandError ε}
    (he : (p.solo a command n).1 = some (.error e)) : e.isConflict = false := by
  induction p generalizing n with
  | done => cases he
  | stop e' =>
      cases he
      exact h
  | panic => cases he
  | env k ih => exact ih _ (h _) he
  | appends k ih => exact ih _ (h _) he
  | append batch k ih =>
      rw [Program.solo] at he
      split at he
      · refine ih _ (h _ fun e' he' => ?_) he
        cases he'
        rfl
      · exact ih _ (h _ fun e' he' => by cases he') he
  | appendWith batch o k ih => cases he
  | sleep ms q ih | note m q ih => exact ih h he

namespace Description
variable {S ε : Type} (d : Description S ε)

/-- Dispatches calls one after another, each with the time it takes. -/
def dispatchAll : List CommandCall → World → List (Option (CommandResult S ε)) × World
  | [], w => ([], w)
  | c :: rest, w =>
    let (o, w) := (d.dispatch .direct c.direct).run w
    let (os, w) := dispatchAll rest w
    (o :: os, w)

/-- In none of the dispatches an append is answered that there are no revisions. -/
def allHaveRoom : List CommandCall → World → Bool
  | [], _ => true
  | c :: rest, w =>
    let dispatch := d.dispatch .direct c.direct
    dispatch.runHasRoom w && allHaveRoom rest (dispatch.run w).2

/-- How calls for one aggregate end one after another, and the events in its log then. -/
def foretell : List CommandCall → List DomainEvent →
    List (Option (Except (CommandError ε) S)) × List DomainEvent
  | [], facts => ([], facts)
  | c :: rest, facts =>
    let (o, written) := d.effect c.direct facts
    let (os, facts) := foretell rest (facts ++ written)
    (o :: os, facts)

theorem allHaveRoom_append (before after : List CommandCall) (w : World) :
    d.allHaveRoom (before ++ after) w =
      (d.allHaveRoom before w && d.allHaveRoom after (d.dispatchAll before w).2) := by
  induction before generalizing w with
  | nil => rfl
  | cons c rest ih =>
      rw [List.cons_append, allHaveRoom, ih, allHaveRoom, dispatchAll, Bool.and_assoc]

theorem foretell_concat (calls : List CommandCall) (c : CommandCall) (facts : List DomainEvent) :
    d.foretell (calls ++ [c]) facts =
      let (os, facts) := d.foretell calls facts
      let (o, written) := d.effect c.direct facts
      (os ++ [o], facts ++ written) := by
  induction calls generalizing facts with
  | nil => rfl
  | cons x rest ih =>
      simp only [List.cons_append, foretell, ih]

variable {d}

/-- Dispatches for one aggregate, one after another, end as foretold. -/
theorem dispatchAll_foretold (driven : d.StateDriven) {a : AggregateId} (calls : List CommandCall)
    (here : ∀ c ∈ calls, c.aggregate = a) {w : World} (clear : w.link.IsClear)
    (room : d.allHaveRoom calls w = true) :
    let foretold := d.foretell calls ((w.log a).map RecordedEvent.toDomain)
    (d.dispatchAll calls w).1.map (Option.map (Except.map Entity.state)) = foretold.1 ∧
      ((d.dispatchAll calls w).2.log a).map RecordedEvent.toDomain = foretold.2 := by
  induction calls generalizing w with
  | nil => exact ⟨rfl, rfl⟩
  | cons c rest ih =>
      rw [allHaveRoom, Bool.and_eq_true] at room
      have target : (c.direct (S := S)).target = .id a :=
        congrArg Target.id (here c List.mem_cons_self)
      obtain ⟨only, ending, written⟩ := Activity.assures_run
        (assures_dispatch StoreAccess.exclusive_direct driven target) clear room.1
      obtain ⟨others, final⟩ := ih (fun c' hc' => here c' (List.mem_cons_of_mem _ hc')) only.clear
        room.2
      rw [written] at others final
      refine ⟨?_, final⟩
      rw [dispatchAll, List.map_cons, ending, others, foretell]

/-- A description whose commands end in a conflict only where the store has answered with one. -/
def Candid (d : Description S ε) : Prop :=
  ∀ name c a payload program, d.commands.get? name = some c → c.prepare a payload = .ok program →
    ∀ entity, (program entity).Candid

theorem isConflict_of_prepare {q : CommandRequest S} {e : CommandError ε}
    (h : d.prepare q = .error e) : e.isConflict = false := by
  rw [prepare] at h
  split at h
  · cases h
    rfl
  · split at h
    · cases h
      rfl
    · split at h
      · cases h
        rfl
      · cases h

theorem isConflict_of_answerOf {a : AggregateId} {facts : List DomainEvent} {e : CommandError ε}
    (h : d.answerOf a facts = .error e) : e.isConflict = false := by
  rw [answerOf] at h
  split at h <;> cases h <;> rfl

theorem Candid.effect (h : d.Candid) {q : CommandRequest S} {facts : List DomainEvent}
    {e : CommandError ε} (he : (d.effect q facts).1 = some (.error e)) : e.isConflict = false := by
  rw [Description.effect] at he
  cases hp : d.prepare q with
  | error e' =>
      rw [hp] at he
      cases he
      exact isConflict_of_prepare hp
  | ok program =>
      obtain ⟨c, hc, prepared⟩ := prepare_eq_ok hp
      simp only [hp] at he
      split at he
      · cases he
        rfl
      · split at he
        · cases he
          rfl
        · rename_i s _
          have candid := h _ _ _ _ _ hc prepared (d.found q.target.aggregate s)
          cases hs : ((program (d.found q.target.aggregate s)).solo q.target.aggregate
              q.command 0).1 with
          | none => simp [hs, verdict] at he
          | some ending =>
              cases ending with
              | error e' =>
                  simp only [hs, verdict, Option.some.injEq, Except.error.injEq] at he
                  rw [← he]
                  exact candid.solo hs
              | ok u =>
                  simp only [hs, verdict, Option.some.injEq] at he
                  exact isConflict_of_answerOf he

/-- Where no command makes up a conflict, none ends in one. -/
theorem Candid.foretell (h : d.Candid) (calls : List CommandCall) (facts : List DomainEvent)
    {e : CommandError ε} (he : some (.error e) ∈ (d.foretell calls facts).1) :
    e.isConflict = false := by
  induction calls generalizing facts with
  | nil => cases he
  | cons c rest ih =>
      rw [Description.foretell] at he
      obtain he | he := List.mem_cons.1 he
      · exact h.effect he.symm
      · exact ih _ he

end Description
end EventSourcing
