import EventSourcing.Proofs.Account.Handlers
import EventSourcing.Proofs.Account.Sound

/-!
Accounts under concurrent dispatches.
A bank is a store with any number of dispatches under way, each somewhere between its load, its
append and its last load. They may be on ids or on any entity that was ever answered, however old,
and others may append whatever accounts do not handle.
-/
namespace EventSourcing.Account

/-- What is left of a dispatch. -/
abbrev Dispatch := Activity (Except (CommandError Refusal) (Entity Account))

structure Bank where
  world : World
  /-- The entities that loads and dispatches have answered with. -/
  known : List (Entity Account) := []
  busy : List Dispatch := []

namespace Bank

inductive Step : Bank → Bank → Prop where
  | load (b : Bank) (a : AggregateId) (e : Entity Account) (v : World)
      (h : (description.load .direct a).run b.world = (some (.ok e), v)) :
      Step b { b with world := v, known := e :: b.known }
  | send (b : Bank) (q : CommandRequest Account) (h : ∀ e, q.target = .loaded e → e ∈ b.known) :
      Step b { b with busy := description.dispatch .direct q :: b.busy }
  | work (b : Bank) {before after : List Dispatch} {x y : Dispatch} {v : World}
      (busy : b.busy = before ++ x :: after) (h : Activity.Step x b.world y v) :
      Step b { b with world := v, busy := before ++ y :: after }
  | answer (b : Bank) (e : Entity Account) (h : .done (.ok e) ∈ b.busy) :
      Step b { b with known := e :: b.known }
  /-- Somebody appends events that accounts do not handle. -/
  | raw (b : Bank) (a : AggregateId) (batch : List DomainEvent) (o : AppendOptions)
      (h : ∀ e ∈ batch, ¬ description.Handles e.type) :
      Step b { b with world := (b.world.commit a batch o).2 }
  /-- Anything else changes but no log. -/
  | other (b : Bank) (v : World) (logs : v.store.logs = b.world.store.logs)
      (clear : v.link.IsClear) : Step b { b with world := v }

inductive Reachable : Bank → Prop where
  | start (w : World) (empty : w.store.logs = ∅) (clear : w.link.IsClear) : Reachable { world := w }
  | step {b c : Bank} (h : Reachable b) (s : Step b c) : Reachable c

end Bank

theorem Lawful.others {log : List RecordedEvent} {s : Option Account} (h : Lawful log s)
    {recorded : List RecordedEvent} (hr : ∀ x ∈ recorded, ¬ description.Handles x.type) :
    Lawful (log ++ recorded) s := by
  induction recorded generalizing log with
  | nil =>
      rw [List.append_nil]
      exact h
  | cons x rest ih =>
      rw [List.append_cons]
      exact ih (.snoc h (.other (hr x (by simp)))) fun y hy => hr y (by simp [hy])

namespace Bank

/-- What holds in a bank at any time. -/
structure Sane (b : Bank) : Prop where
  clear : b.world.link.IsClear
  obeys : Records.Obeys Law b.world.log
  known : ∀ e ∈ b.known, Known b.world.log e
  busy : ∀ x ∈ b.busy, Activity.Guarantees Law (fun m r => ∀ e, r = .ok e → Known m e) x
    b.world.log

variable {b c : Bank}

theorem Sane.start {w : World} (empty : w.store.logs = ∅) (clear : w.link.IsClear) :
    Sane { world := w } where
  clear := clear
  obeys a := by
    have nil : w.log a = [] := by rw [World.log, Logs.log, empty]; rfl
    exact nil ▸ ⟨ordered_nil, none, .nil⟩
  known e he := by cases he
  busy x hx := by cases hx

/-- Where logs only grow under the law, what was known stays known, and dispatches under way go on
as they were. -/
theorem Sane.grow (h : Sane b) {v : World} (grows : Records.Grows b.world.log v.log)
    (obeys : Records.Obeys Law v.log) (clear : v.link.IsClear) : Sane { b with world := v } where
  clear := clear
  obeys := obeys
  known e he := (h.known e he).later grows
  busy x hx := (h.busy x hx).later grows

/-- What accounts do not handle breaks no law of theirs. -/
theorem obeys_commit {w : World} (h : Records.Obeys Law w.log) {a : AggregateId}
    {batch : List DomainEvent} {o : AppendOptions}
    (hbatch : ∀ e ∈ batch, ¬ description.Handles e.type) :
    Records.Obeys Law (w.commit a batch o).2.log := by
  intro d
  cases hr : (w.commit a batch o).1 with
  | error err =>
      rw [World.log_commit_error hr]
      exact h d
  | ok r =>
      obtain ⟨_, recorded, _, ascending, hdomain, _, hlog⟩ := World.wrote_commit hr
      rw [hlog]
      split
      · rename_i had
        subst had
        obtain ⟨ordered, s, lawful⟩ := h a
        refine ⟨ordered.append ascending, s, lawful.others fun x hx => ?_⟩
        refine hbatch x.toDomain ?_
        rw [← hdomain]
        exact List.mem_map_of_mem hx
      · exact h d

theorem Sane.step (h : Sane b) (s : Step b c) : Sane c := by
  cases s with
  | load a e v hload =>
      obtain ⟨r, hr, he, _, rfl⟩ := Folding.run_load_eq_ok h.clear hload
      have sane := h.grow (v := b.world.loaded) (.refl _) h.obeys (World.isClear_loaded h.clear)
      refine ⟨sane.clear, sane.obeys, fun x hx => ?_, sane.busy⟩
      obtain rfl | hx := List.mem_cons.1 hx
      · obtain ⟨rfl, had⟩ := had_of_replay h.obeys hr
        exact Known.of_entity? he had
      · exact sane.known x hx
  | send q hq =>
      refine ⟨h.clear, h.obeys, h.known, fun x hx => ?_⟩
      obtain rfl | hx := List.mem_cons.1 hx
      · exact guarantees_dispatch h.obeys fun e he => h.known e (hq e he)
      · exact h.busy x hx
  | @work before after x y v busy hstep =>
      obtain ⟨grows, obeys, rest⟩ := (h.busy x (by simp [busy])).step hstep h.clear h.obeys
      have sane := h.grow grows obeys (hstep.isClear h.clear)
      refine ⟨sane.clear, sane.obeys, sane.known, fun z hz => ?_⟩
      obtain hz | hz := List.mem_append.1 hz
      · exact sane.busy z (by simp [busy, hz])
      · obtain rfl | hz := List.mem_cons.1 hz
        · exact rest
        · exact sane.busy z (by simp [busy, hz])
  | answer e he =>
      refine ⟨h.clear, h.obeys, fun x hx => ?_, h.busy⟩
      obtain rfl | hx := List.mem_cons.1 hx
      · exact h.busy _ he _ (.refl _) h.obeys x rfl
      · exact h.known x hx
  | raw a batch o hbatch =>
      refine h.grow (fun d => World.log_prefix_commit _ a d batch o) (obeys_commit h.obeys hbatch) ?_
      rw [World.link_commit]
      exact h.clear
  | other v logs clear =>
      have same : v.log = b.world.log := funext fun a => by rw [World.log, logs, World.log]
      exact h.grow (same ▸ .refl _) (same ▸ h.obeys) clear

theorem Sane.of_reachable (h : Reachable b) : Sane b := by
  induction h with
  | start w empty clear => exact .start empty clear
  | step _ s ih => exact ih.step s

/-- Whatever is dispatched to accounts, and however the steps of dispatches and the appends of others
are interleaved, each log that an account ever has is sound. -/
theorem accounts_stay_sound (h : Reachable b) (a : AggregateId) {part : List RecordedEvent}
    (hp : part <+: b.world.log a) : Sound a part := by
  obtain ⟨_, s, lawful⟩ := (Sane.of_reachable h).obeys a
  obtain ⟨s', lawful'⟩ := lawful.of_part hp
  exact lawful'.sound a

/-- A dispatch can run to its end while all others rest. -/
theorem Reachable.run (h : Reachable b) {q : CommandRequest Account}
    (hq : ∀ e, q.target = .loaded e → e ∈ b.known)
    (ends : ((description.dispatch .direct q).run b.world).1.isSome = true) :
    ∃ c, Reachable c ∧ c.world = ((description.dispatch .direct q).run b.world).2 := by
  obtain ⟨w, known, busy⟩ := b
  obtain ⟨r, hr⟩ := Option.isSome_iff_exists.1 ends
  have steps {x y : Dispatch} {u v : World} (taken : Activity.Steps x u y v)
      (hx : Reachable ⟨u, known, x :: busy⟩) : Reachable ⟨v, known, y :: busy⟩ := by
    induction taken with
    | refl => exact hx
    | head s _ ih => exact ih (hx.step (@Step.work _ [] busy _ _ _ rfl s))
  exact ⟨_, steps (Activity.steps_run _ _ hr) (h.step (.send _ q hq)), rfl⟩

/-- An account that was opened and then paid into. -/
theorem opened_and_paid_into :
    let a : AggregateId := ⟨typeName, "1"⟩
    ∃ b, Reachable b ∧ (b.world.log a).length = 2 ∧ Sound a (b.world.log a) := by
  intro a
  let w : World := { readings := fun n => ⟨n, 0⟩, shares := fun _ => 0 }
  let opening : CommandRequest Account := ⟨"open", .id a, Open.toJson ⟨"ada", 100⟩, none⟩
  let deposit : CommandRequest Account := ⟨"deposit", .id a, Change.toJson ⟨50⟩, none⟩
  obtain ⟨b, opened, hb⟩ := (Reachable.start w rfl ⟨rfl, rfl, rfl⟩).run (q := opening)
    (fun e he => by cases he) (by decide +kernel)
  obtain ⟨c, paid, hc⟩ := opened.run (q := deposit) (fun e he => by cases he)
    (by rw [hb]; decide +kernel)
  refine ⟨c, paid, ?_, accounts_stay_sound paid a List.prefix_rfl⟩
  rw [hc, hb]
  decide +kernel

end Bank
end EventSourcing.Account
