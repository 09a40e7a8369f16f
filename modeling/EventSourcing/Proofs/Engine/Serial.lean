import EventSourcing.Proofs.Account.Decisions
import EventSourcing.Proofs.Engine.Runs

/-!
Serial equivalence.
However calls arrive, wait, run and time out, the commands for one aggregate that were begun have
the effects that they have one after another, in the order in which they were submitted.
-/
namespace EventSourcing

/-- How work has ended, as far as the command goes: with a state or an error, or broken down. -/
def Work.outcome? {S ε : Type} :
    Work (CommandResult S ε) → Option (Option (Except (CommandError ε) S))
  | .ended (.ok x) => some (some (x.map Entity.state))
  | .ended (.error _) => some none
  | _ => none

namespace Engine
variable {S ε : Type}

/-- The requests for an aggregate whose work has begun, in the order in which they were
submitted. -/
def started (calls : Nat → CommandCall) (e : Engine (CommandResult S ε)) (submitted : List Nat)
    (a : AggregateId) : List Nat :=
  submitted.filter fun r => (calls r).aggregate = a ∧ (e.begunWork? r).isSome

/-- How the begun work of a request has ended, if it has. -/
def outcome? (e : Engine (CommandResult S ε)) (r : Nat) :
    Option (Option (Except (CommandError ε) S)) :=
  (e.begunWork? r).bind Work.outcome?

/-- Requests have ended as their commands do one after another. -/
def Settled (d : Description S ε) (calls : Nat → CommandCall) (facts : List DomainEvent)
    (e : Engine (CommandResult S ε)) (past : List Nat) : Prop :=
  past.map e.outcome? = (d.foretell (past.map calls) facts).1.map some

/-- The commands that are over have the effects that they have one after another; at most one more
has begun, and what remains of it will have its effect. -/
def Serial (d : Description S ε) (calls : Nat → CommandCall) (facts : List DomainEvent)
    (e : Engine (CommandResult S ε)) (submitted : List Nat) (a : AggregateId) : Prop :=
  ∃ past, Settled d calls facts e past ∧
    ((e.started calls submitted a = past ∧
        (e.world.log a).map RecordedEvent.toDomain = (d.foretell (past.map calls) facts).2) ∨
      ∃ r wake rest log, e.started calls submitted a = past ++ [r] ∧
        e.begunWork? r = some (.asleep wake false rest) ∧
        log.map RecordedEvent.toDomain = (d.foretell (past.map calls) facts).2 ∧
        ∀ b, Activity.Assures a
          (Description.HasEffect (d.effect (calls r).direct (log.map RecordedEvent.toDomain)) log)
          (rest b) (e.world.log a))

variable {d : Description S ε} {calls : Nat → CommandCall} {facts : List DomainEvent}
  {e e' : Engine (CommandResult S ε)} {submitted : List Nat} {a : AggregateId} {r : Nat}

theorem mem_started : r ∈ e.started calls submitted a ↔
    r ∈ submitted ∧ (calls r).aggregate = a ∧ (e.begunWork? r).isSome := by
  rw [started, List.mem_filter, decide_eq_true_iff]

theorem started_congr (h : ∀ r ∈ submitted, (calls r).aggregate = a →
    e'.begunWork? r = e.begunWork? r) :
    e'.started calls submitted a = e.started calls submitted a := by
  refine List.filter_congr fun r hr => ?_
  by_cases ha : (calls r).aggregate = a
  · rw [h r hr ha]
  · simp [ha]

theorem Settled.congr {past : List Nat} (h : Settled d calls facts e past)
    (begun : ∀ r ∈ past, e'.begunWork? r = e.begunWork? r) : Settled d calls facts e' past := by
  rw [Settled, ← h]
  refine List.map_congr_left fun r hr => ?_
  rw [outcome?, begun r hr, outcome?]

theorem Settled.not_mem {past : List Nat} (h : Settled d calls facts e past)
    (goes : e.outcome? r = none) : r ∉ past := by
  intro hr
  have mem : none ∈ past.map e.outcome? := List.mem_map.2 ⟨r, hr, goes⟩
  rw [h] at mem
  simp at mem

theorem Settled.concat {past : List Nat} (h : Settled d calls facts e past)
    (ended : e.outcome? r =
      some (d.effect (calls r).direct (d.foretell (past.map calls) facts).2).1) :
    Settled d calls facts e (past ++ [r]) := by
  rw [Settled, List.map_append, List.map_append, List.map_singleton, List.map_singleton, h, ended,
    d.foretell_concat, List.map_append]
  rfl

theorem Settled.getElem? {past : List Nat} (h : Settled d calls facts e past) {i : Nat}
    {o : Option (Except (CommandError ε) S)} (hi : past[i]? = some r) (ho : e.outcome? r = some o) :
    (d.foretell (past.map calls) facts).1[i]? = some o := by
  have outcome := congrArg (·[i]?) h
  rw [List.getElem?_map, List.getElem?_map, hi, Option.map_some, ho] at outcome
  obtain ⟨_, foretold, same⟩ := Option.map_eq_some_iff.1 outcome.symm
  rw [foretold, Option.some.inj same]

theorem Serial.frame (h : Serial d calls facts e submitted a)
    (begun : ∀ r, (calls r).aggregate = a → e'.begunWork? r = e.begunWork? r)
    (log : e'.world.log a = e.world.log a) : Serial d calls facts e' submitted a := by
  obtain ⟨past, settled, h⟩ := h
  have same : e'.started calls submitted a = e.started calls submitted a :=
    started_congr fun r _ => begun r
  have here {r : Nat} (hr : r ∈ e.started calls submitted a) : e'.begunWork? r = e.begunWork? r :=
    begun r (mem_started.1 hr).2.1
  refine ⟨past, settled.congr fun r hr => here ?_, ?_⟩
  · obtain ⟨started, _⟩ | ⟨_, _, _, _, started, _⟩ := h
    · rw [started]
      exact hr
    · rw [started]
      exact List.mem_append_left _ hr
  · rw [same, log]
    obtain ⟨started, hlog⟩ | ⟨r, wake, rest, log, started, asleep, hlog, assures⟩ := h
    · exact .inl ⟨started, hlog⟩
    · refine .inr ⟨r, wake, rest, log, started, ?_, hlog, assures⟩
      rw [here (by rw [started]; simp)]
      exact asleep

theorem Serial.submit (h : Serial d calls facts e submitted a) (idle : e.begunWork? r = none) :
    Serial d calls facts e (submitted ++ [r]) a := by
  have same : e.started calls (submitted ++ [r]) a = e.started calls submitted a := by
    rw [started, List.filter_append, started]
    simp [idle]
  obtain ⟨past, settled, h⟩ := h
  refine ⟨past, settled, ?_⟩
  rw [same]
  exact h

/-- What remains of a command goes on from the events that were there when it began. -/
theorem Serial.goOn {past : List Nat} {log : List RecordedEvent}
    {p : Activity.Pause (CommandResult S ε)} {now : Nat} (settled : Settled d calls facts e past)
    (started : e.started calls submitted a = past ++ [r])
    (begun : e.begunWork? r = some (p.work now))
    (hlog : log.map RecordedEvent.toDomain = (d.foretell (past.map calls) facts).2)
    (assures : p.Assures a
      (Description.HasEffect (d.effect (calls r).direct (log.map RecordedEvent.toDomain)) log)
      (e.world.log a)) :
    Serial d calls facts e submitted a := by
  have settles {o : Option (Except (CommandError ε) S)} (ended : (p.work now).outcome? = some o)
      (ho : o = (d.effect (calls r).direct (log.map RecordedEvent.toDomain)).1)
      (written : (e.world.log a).map RecordedEvent.toDomain = log.map RecordedEvent.toDomain ++
        (d.effect (calls r).direct (log.map RecordedEvent.toDomain)).2) :
      Serial d calls facts e submitted a := by
    refine ⟨past ++ [r], settled.concat ?_, .inl ⟨started, ?_⟩⟩
    · rw [outcome?, begun, Option.bind_some, ended, ho, hlog]
    · rw [List.map_append, List.map_singleton, d.foretell_concat, written, hlog]
  cases p with
  | finished x => exact settles rfl assures.1 assures.2
  | panicked => exact settles rfl assures.1 assures.2
  | asleep ms wakeable rest =>
      obtain ⟨rfl, assures⟩ := assures
      exact ⟨past, settled, .inr ⟨r, now + ms, rest, log, started, begun, hlog, assures⟩⟩

theorem Orderly.unbegun {lane : Nat → AggregateId} {spare : Option AggregateId}
    (h : Orderly lane e submitted spare) (hs : e.stage? r = some .pending) :
    e.begunWork? r = none := by
  obtain ⟨q, hq, pending⟩ := Option.map_eq_some_iff.1 hs
  have fits := h.fits r q hq
  exact begunWork?_eq_none hq (fits.fresh (fits.early (.inl pending)))

theorem Orderly.ended_of_over {lane : Nat → AggregateId} {spare : Option AggregateId}
    (h : Orderly lane e submitted spare) (hs : e.stage? r = some .over)
    {work : Work (CommandResult S ε)} (begun : e.begunWork? r = some work) :
    ∃ o, work = .ended o := by
  obtain ⟨q, hq, stage⟩ := Option.map_eq_some_iff.1 hs
  have fits := h.fits r q hq
  rw [begunWork?, hq, Option.bind_some] at begun
  obtain ⟨t, ht, rfl⟩ := Option.map_eq_some_iff.1 begun
  obtain fresh | ended := fits.stopped stage
  · rw [fits.fresh fresh] at ht
    cases ht
  · rw [Request.hasEnded] at ended
    cases hw : q.work with
    | ended o => exact ⟨o, rfl⟩
    | fresh | asleep => simp [hw] at ended

section Doing
variable (order : Orderly (fun r => (calls r).aggregate) e submitted none)
  (doing : Doing (fun r => (calls r).aggregate) e submitted r)
include order doing

/-- The requests of the lane that have begun are over, but for the one that is being done. -/
theorem Doing.started : ∃ past, (∀ r' ∈ past, e.stage? r' = some .over) ∧
    ∀ e' : Engine (CommandResult S ε), (∀ r', r ≠ r' → e'.begunWork? r' = e.begunWork? r') →
      e'.started calls submitted (calls r).aggregate =
        past ++ if (e'.begunWork? r).isSome then [r] else [] := by
  obtain ⟨past, hcut, hpast, hqueue, _⟩ := doing.cut order
  refine ⟨past.filter fun r' => (e.begunWork? r').isSome, fun r' hr' => ?_, fun e' others => ?_⟩
  · exact hpast r' (List.mem_filter.1 hr').1
  · have split : e'.started calls submitted (calls r).aggregate =
        (submitted.filter fun r' => (calls r').aggregate = (calls r).aggregate).filter fun r' =>
          (e'.begunWork? r').isSome := by
      rw [Engine.started, List.filter_filter]
      refine List.filter_congr fun r' _ => ?_
      simp [Bool.and_comm]
    have ended : past.filter (fun r' => (e'.begunWork? r').isSome) =
        past.filter fun r' => (e.begunWork? r').isSome := by
      refine List.filter_congr fun r' hr' => ?_
      rw [others]
      rintro rfl
      exact doing.unfinished (hpast r hr')
    have waiting : (e.queue (calls r).aggregate).filter (fun r' => (e'.begunWork? r').isSome) =
        [] := by
      refine List.filter_eq_nil_iff.2 fun r' hr' => ?_
      have other : r ≠ r' := by
        rintro rfl
        exact doing.taken hr'
      rw [others r' other, order.unbegun (hqueue r' hr')]
      simp
    rw [split, hcut, List.filter_append, List.filter_append, ended, waiting, List.append_nil,
      List.filter_cons, List.filter_nil]

/-- What is left of the work of a request will have its effect on the events that were there when it
began, and all that began before it have ended. -/
structure Owes (d : Description S ε) (calls : Nat → CommandCall) (facts : List DomainEvent)
    (e : Engine (CommandResult S ε)) (submitted : List Nat) (r : Nat)
    (x : Activity (CommandResult S ε)) (past : List Nat) (log : List RecordedEvent) : Prop where
  settled : Settled d calls facts e past
  started : ∀ e' : Engine (CommandResult S ε),
    (∀ r', r ≠ r' → e'.begunWork? r' = e.begunWork? r') → (e'.begunWork? r).isSome →
      e'.started calls submitted (calls r).aggregate = past ++ [r]
  goes : e.outcome? r = none
  events : log.map RecordedEvent.toDomain = (d.foretell (past.map calls) facts).2
  assures : Activity.Assures (calls r).aggregate
    (Description.HasEffect (d.effect (calls r).direct (log.map RecordedEvent.toDomain)) log)
    x (e.world.log (calls r).aggregate)

section Next
variable (h : Serial d calls facts e submitted (calls r).aggregate)
  {q : Request (CommandResult S ε)} (hq : e.request? r = some q)
include h hq

/-- Where work begins, all in its lane that have begun are over: the log is what they have made of
it. -/
theorem Serial.begins {s : StoreAccess} (hs : s.Exclusive) (driven : d.StateDriven)
    (hw : q.work = .fresh (d.dispatch s
      ⟨(calls r).command, .id (calls r).aggregate, (calls r).payload, (calls r).correlation⟩)) :
    ∃ past log, Owes d calls facts e submitted r (d.dispatch s
      ⟨(calls r).command, .id (calls r).aggregate, (calls r).payload, (calls r).correlation⟩)
      past log := by
  obtain ⟨before, hbefore, started⟩ := doing.started order
  have idle := begunWork?_eq_none hq
    ((order.fits r q hq).fresh (by rw [Request.isFresh, hw]))
  have now := started e fun _ _ => rfl
  rw [idle, Option.isSome_none, if_neg (by simp), List.append_nil] at now
  obtain ⟨past, settled, ⟨same, hlog⟩ | ⟨r', wake, rest, log, last, asleep, _⟩⟩ := h
  · rw [now] at same
    subst same
    refine ⟨before, e.world.log (calls r).aggregate, settled, fun e' others begun => ?_, ?_, hlog, ?_⟩
    · rw [started e' others, if_pos begun]
    · rw [outcome?, idle, Option.bind_none]
    · exact Description.assures_dispatch (q := ⟨(calls r).command, .id (calls r).aggregate,
        (calls r).payload, (calls r).correlation⟩) hs driven rfl
  · rw [now] at last
    obtain ⟨o, ho⟩ := order.ended_of_over (hbefore r' (by rw [last]; simp)) asleep
    cases ho

/-- Work that goes on is the one that is half done. -/
theorem Serial.resumes {wake : Nat} {wakeable : Bool} {rest : Bool → Activity (CommandResult S ε)}
    (hw : q.work = .asleep wake wakeable rest) (b : Bool) :
    ∃ past log, Owes d calls facts e submitted r (rest b) past log := by
  obtain ⟨before, _, started⟩ := doing.started order
  have begun : e.begunWork? r = some (.asleep wake wakeable rest) := by
    rw [← hw]
    exact begunWork?_eq_some hq ((order.fits r q hq).begun_ne_none (by simp [Request.isFresh, hw])
      (by simp [Request.hasEnded, hw]))
  have goes : e.outcome? r = none := by
    rw [outcome?, begun]
    rfl
  have now := started e fun _ _ => rfl
  rw [begun, Option.isSome_some, if_pos rfl] at now
  obtain ⟨past, settled, ⟨same, _⟩ | ⟨r', wake', rest', log, last, asleep, hlog, assures⟩⟩ := h
  · refine absurd ?_ (settled.not_mem goes)
    rw [← same, now]
    simp
  · rw [now] at last
    obtain ⟨rfl, hr⟩ := List.append_inj' last rfl
    cases hr
    rw [begun] at asleep
    cases asleep
    refine ⟨before, log, settled, fun e' others begun => ?_, goes, hlog, assures b⟩
    rw [started e' others, if_pos begun]

end Next

/-- Work that begins or goes on keeps the commands of its aggregate in their order, and lets the
others be. -/
theorem Serial.moved {s : StoreAccess} (hs : s.Exclusive) (driven : d.StateDriven)
    (genuine : ∀ r x, e.freshWork? r = some x → x = d.dispatch s
      ⟨(calls r).command, .id (calls r).aggregate, (calls r).payload, (calls r).correlation⟩)
    {start : AggregateId → List DomainEvent}
    (h : ∀ a, Serial d calls (start a) e submitted a) (clear : e.world.link.IsClear)
    {q : Request (CommandResult S ε)} (hq : e.request? r = some q)
    {x : Activity (CommandResult S ε)} (hx : q.next? e.now = some x)
    (room : x.hasRoom q.cancelled e.world = true)
    (moved : Moved e e' r ((x.advance q.cancelled e.world).1,
      (x.advance q.cancelled e.world).2.work (x.advance q.cancelled e.world).1.now)) :
    (∀ a, Serial d calls (start a) e' submitted a) ∧ e'.world.link.IsClear ∧
      e'.world.conflicts = e.world.conflicts := by
  obtain ⟨past, log, owes⟩ :
      ∃ past log, Owes d calls (start (calls r).aggregate) e submitted r x past log := by
    obtain hw | ⟨wake, wakeable, rest, b, hw, rfl⟩ := Request.next?_eq_some hx
    · obtain rfl := genuine r x (by rw [freshWork?, hq, Option.bind_some, hw])
      exact (h _).begins order doing hq hs driven hw
    · exact (h _).resumes order doing hq hw b
  obtain ⟨only, rest⟩ := Activity.assures_advance owes.assures clear room
  refine ⟨fun a => ?_, moved.world.clear only.clear,
    moved.world.conflicts.trans only.conflicts⟩
  by_cases ha : (calls r).aggregate = a
  · subst ha
    refine Serial.goOn (r := r) ?_ (owes.started e' moved.others ?_) moved.begun owes.events ?_
    · refine owes.settled.congr fun r' hr' => moved.others r' ?_
      rintro rfl
      exact owes.settled.not_mem owes.goes hr'
    · rw [moved.begun]
      rfl
    · rw [moved.world.logs]
      exact rest
  · refine (h a).frame (fun r' hr' => moved.others r' ?_) ?_
    · rintro rfl
      exact ha hr'
    · rw [moved.world.logs]
      exact only.logs a ha

end Doing

end Engine

namespace CommandEngine
open Engine
variable {S ε : Type} {m : CommandEngine S ε} {calls : Nat → CommandCall} {w : World}
  {submitted : List Nat} {e e' : Engine (CommandResult S ε)}

structure Sound (m : CommandEngine S ε) (calls : Nat → CommandCall) (w : World)
    (submitted : List Nat) (e : Engine (CommandResult S ε)) : Prop where
  order : Orderly (fun r => (calls r).aggregate) e submitted none
  clear : e.world.link.IsClear
  conflicts : e.world.conflicts = w.conflicts
  genuine : ∀ r x, e.freshWork? r = some x → x = m.description.dispatch m.access
    ⟨(calls r).command, .id (calls r).aggregate, (calls r).payload, (calls r).correlation⟩
  serial : ∀ a, Serial m.description calls ((w.log a).map RecordedEvent.toDomain) e submitted a

theorem request_fits (m : CommandEngine S ε) (c : CommandCall) (foreground : Bool) :
    (m.request c foreground).Fits False where
  fresh _ := rfl
  early _ := rfl
  ready due := due.elim
  stopped hs := by cases hs
  overrun o ho := by cases ho
  result o ho := by cases ho
  answer t o ho := by cases ho
  idle _ := .inl rfl
  broken f hf := by cases hf

theorem sound_start (clear : w.link.IsClear) :
    m.Sound calls w [] (.ofWorld w m.config.pool) where
  order := orderly_ofWorld w m.config.pool
  clear := clear
  conflicts := rfl
  genuine r x hx := by cases hx
  serial a := ⟨[], rfl, .inl ⟨rfl, rfl⟩⟩

namespace Sound

theorem unmoved (h : m.Sound calls w submitted e)
    (order : Orderly (fun r => (calls r).aggregate) e' submitted none) (same : Unmoved e e') :
    m.Sound calls w submitted e' where
  order := order
  clear := same.world.clear h.clear
  conflicts := same.world.conflicts.trans h.conflicts
  genuine r x hx := h.genuine r x (same.fresh r x hx)
  serial a := (h.serial a).frame (fun r _ => same.begun r) (by rw [same.world.logs])

theorem alike (h : m.Sound calls w submitted e) (same : Alike e e') :
    m.Sound calls w submitted e' :=
  h.unmoved (h.order.alike same) same.still.unmoved

theorem add (h : m.Sound calls w submitted e) (foreground : Bool) :
    m.Sound calls w submitted
      (e.add (m.request (calls e.requests.length) foreground)).2 where
  order := h.order.add rfl (m.request_fits _ _) rfl
  clear := h.clear
  conflicts := h.conflicts
  genuine r x hx := by
    rw [freshWork?, request?_add] at hx
    split at hx
    · rename_i hr
      subst hr
      cases hx
      rfl
    · exact h.genuine r x hx
  serial a := by
    refine (h.serial a).frame (fun r _ => ?_) rfl
    rw [begunWork?, request?_add]
    split
    · rename_i hr
      rw [← hr, begunWork?, request?_length]
      rfl
    · rfl

theorem call (h : m.Sound calls w submitted e) {r : Nat} (made : (e.request? r).isSome)
    (fresh : r ∉ submitted) (uncalled : e.due (.call r) = 0) :
    m.Sound calls w (submitted ++ [r]) (e.onCall r) := by
  obtain ⟨order, still⟩ := kept_onCall h.order made fresh uncalled
  obtain ⟨q, hq⟩ := Option.isSome_iff_exists.1 made
  have pending : e.stage? r = some .pending := by
    rw [stage?_eq hq, h.order.unsent r q hq fresh]
  have same := still.unmoved
  refine ⟨order, same.world.clear h.clear, same.world.conflicts.trans h.conflicts,
    fun r x hx => h.genuine r x (same.fresh r x hx), fun a => ?_⟩
  refine ((h.serial a).submit (h.order.unbegun pending)).frame (fun r _ => same.begun r) ?_
  rw [same.world.logs]

theorem onWork (h : m.Sound calls w submitted e) (hs : m.access.Exclusive)
    (driven : m.description.StateDriven) {r : Nat}
    (ready : ∀ q, e.request? r = some q → q.isFresh →
      q.stage = .running ∨ ∃ o, q.stage = .overrun o)
    (room : e.hasRoom (.work r) = true) : m.Sound calls w submitted (e.onWork r) := by
  cases hq : e.request? r with
  | none =>
      rw [Engine.onWork, hq]
      exact h
  | some q =>
      obtain ⟨order, same | ⟨x, hx, doing, moved⟩⟩ := kept_onWork h.order hq (ready q hq)
      · exact h.unmoved order same
      · rw [hasRoom] at room
        simp only [hq, hx, Option.all_some] at room
        obtain ⟨serial, clear, conflicts⟩ := Serial.moved h.order doing hs driven h.genuine h.serial
          h.clear hq hx room moved
        exact ⟨order, clear, conflicts.trans h.conflicts,
          fun r y hy => h.genuine r y (moved.fresh r y hy), serial⟩

theorem due (h : m.Sound calls w submitted e) (hs : m.access.Exclusive)
    (driven : m.description.StateDriven) {before after : Agenda Signal} {d : Due Signal} (t : Nat)
    (ha : e.agenda = before ++ d :: after)
    (room : (e.taken before after t).hasRoom d.signal = true) :
    m.Sound calls w (submitted ++ d.signal.submits) ((e.taken before after t).handle d.signal) := by
  have popped := h.order.pop ha t
  have still : Still e (e.taken before after t) := ⟨fun _ => rfl, rfl, id, rfl⟩
  have goesOn (idle : d.signal.served = none) : m.Sound calls w submitted (e.taken before after t) := by
    rw [idle] at popped
    exact h.unmoved popped still.unmoved
  have nothing {e' : Engine (CommandResult S ε)} (h : m.Sound calls w submitted e') :
      m.Sound calls w (submitted ++ []) e' := by
    rw [List.append_nil]
    exact h
  have kept {e' : Engine (CommandResult S ε)} (k : Kept (fun r => (calls r).aggregate)
      (e.taken before after t) e' submitted none) : m.Sound calls w (submitted ++ []) e' :=
    nothing (h.unmoved k.order (still.trans k.still).unmoved)
  cases hd : d.signal with
  | call r =>
      obtain ⟨fresh, made, uncalled⟩ := h.order.called ha t hd
      exact (goesOn (by rw [hd]; rfl)).call made fresh uncalled
  | caller r => exact kept (kept_onCaller (goesOn (by rw [hd]; rfl)).order r)
  | worker a =>
      rw [hd] at popped
      exact kept (kept_onWorker popped)
  | slot r => exact kept (kept_onSlot (goesOn (by rw [hd]; rfl)).order r)
  | outcome r => exact kept (kept_onOutcome (goesOn (by rw [hd]; rfl)).order r)
  | work r =>
      rw [hd] at room
      refine nothing ((goesOn (by rw [hd]; rfl)).onWork hs driven (fun q hq fresh => ?_) room)
      exact h.order.ready ha hd hq fresh
  | close d => exact nothing ((goesOn (by rw [hd]; rfl)).alike (alike_onClose _ d))
  | drained d => exact nothing ((goesOn (by rw [hd]; rfl)).alike (alike_onDrained _ d))

end Sound

theorem Run.sound (h : m.Run calls w submitted e) (hs : m.access.Exclusive)
    (driven : m.description.StateDriven) (clear : w.link.IsClear) :
    m.Sound calls w submitted e := by
  induction h with
  | start => exact sound_start clear
  | call foreground h ih =>
      obtain ⟨fresh, uncalled⟩ := ih.order.uncalled
      exact (ih.add foreground).call (by rw [request?_add, if_pos rfl]; rfl) fresh uncalled
  | spawn foreground h ih =>
      obtain ⟨fresh, uncalled⟩ := ih.order.uncalled
      have added := ih.add foreground
      refine added.unmoved (added.order.schedule_call .background ?_ fresh uncalled)
        ⟨fun _ => rfl, fun _ _ hx => hx, rfl, id, rfl⟩
      rw [request?_add, if_pos rfl]
      rfl
  | due t h ha hnow hdue room ih => exact ih.due hs driven t ha room
  | shutDown drain h ih =>
      refine ih.alike (Alike.trans ?_ (alike_onClose _ _))
      exact alike_aside _ _ _ ⟨rfl, id, rfl⟩
  | spawnShutDown h ih =>
      have added (e : Engine (CommandResult S ε)) : Alike e (e.addDrain { foreground := false }).2 :=
        alike_aside _ _ _ ⟨rfl, id, rfl⟩
      exact ih.alike ((added _).trans (alike_wake _ _ trivial))
  | aside h same ih => exact ih.alike (alike_aside _ _ _ same)

theorem make_eq_ok {c : Config} {d : Description S ε} (h : make c d = .ok m) :
    m.description = d ∧ m.access.Exclusive := by
  rw [make] at h
  cases hv : c.validate with
  | error e =>
      rw [hv] at h
      cases h
  | ok u =>
      rw [hv, StoreAccess.retrying?] at h
      cases hr : c.retry.validate with
      | error e =>
          rw [hr] at h
          cases h
      | ok u =>
          rw [hr] at h
          cases h
          exact ⟨rfl, StoreAccess.exclusive_direct.retrying c.retry⟩

/-- Who is answered with anything but a failure of the pool has had its work done. -/
theorem Sound.answered (h : m.Sound calls w submitted e) {r t : Nat}
    {o : Ending (CommandResult S ε)} (ho : e.answer? r = some (t, o)) :
    (∃ p, o = .error (.pool p)) ∨
      ∃ x, o = .ok x ∧ r ∈ e.started calls submitted (calls r).aggregate ∧
        e.outcome? r = some (some (x.map Entity.state)) := by
  obtain ⟨q, hq, answer⟩ := Option.bind_eq_some_iff.1 ho
  have fits := h.order.fits r q hq
  obtain pool | ended := fits.answer t o answer
  · exact .inl pool
  · cases o with
    | error f =>
        obtain ⟨p, rfl⟩ := fits.broken f ended
        exact .inl ⟨p, rfl⟩
    | ok x =>
        have old : ¬q.isFresh := by simp [Request.isFresh, ended]
        have begun : e.begunWork? r = some (.ended (.ok x)) := by
          rw [begunWork?, hq, Option.bind_some, ended]
          cases hb : q.begun with
          | some t => rfl
          | none =>
              obtain fresh | ⟨p, hp⟩ := fits.idle hb
              · exact absurd fresh old
              · rw [ended] at hp
                cases hp
        have sent : r ∈ submitted := Decidable.byContradiction fun hr =>
          old (fits.early (.inl (h.order.unsent r q hq hr)))
        refine .inr ⟨x, rfl, mem_started.2 ⟨sent, rfl, ?_⟩, ?_⟩
        · rw [begun]
          rfl
        · rw [outcome?, begun]
          rfl

/-- When all that has begun has ended, none is half done. -/
theorem Sound.atRest (h : m.Sound calls w submitted e) {a : AggregateId}
    (rest : ∀ r ∈ e.started calls submitted a,
      (e.request? r).map Request.hasEnded = some true) :
    Settled m.description calls ((w.log a).map RecordedEvent.toDomain) e
        (e.started calls submitted a) ∧
      (e.world.log a).map RecordedEvent.toDomain =
        (m.description.foretell ((e.started calls submitted a).map calls)
          ((w.log a).map RecordedEvent.toDomain)).2 := by
  obtain ⟨past, settled, ⟨rfl, log⟩ | ⟨r, wake, tail, log, started, asleep, _⟩⟩ := h.serial a
  · exact ⟨settled, log⟩
  · have ended := rest r (by rw [started]; simp)
    obtain ⟨q, hq, begun⟩ := Option.bind_eq_some_iff.1 asleep
    obtain ⟨t, _, work⟩ := Option.map_eq_some_iff.1 begun
    rw [hq, Option.map_some, Request.hasEnded, work] at ended
    cases ended

/-- Once the commands for an aggregate that were begun have ended, its log is what they make of it
one after another, in the order in which they were submitted, and each answer but the failures of
the pool is the one given then. The store has refused nothing because of the head of a log, and so
no command has ended in a conflict that it did not make up. -/
theorem runs_are_serial {c : Config} {d : Description S ε} (made : make c d = .ok m)
    (driven : d.StateDriven) (clear : w.link.IsClear) (run : m.Run calls w submitted e)
    {a : AggregateId} (rest : ∀ r ∈ e.started calls submitted a,
      (e.request? r).map Request.hasEnded = some true)
    {w₁ : World} (clear₁ : w₁.link.IsClear)
    (same : (w₁.log a).map RecordedEvent.toDomain = (w.log a).map RecordedEvent.toDomain)
    (room : d.allHaveRoom ((e.started calls submitted a).map calls) w₁ = true) :
    let started := e.started calls submitted a
    let serial := d.dispatchAll (started.map calls) w₁
    (e.world.log a).map RecordedEvent.toDomain = (serial.2.log a).map RecordedEvent.toDomain ∧
      (∀ r t o, (calls r).aggregate = a → e.answer? r = some (t, o) →
        (∃ p, o = .error (.pool p)) ∨
          ∃ i : Nat, ∃ x y : CommandResult S ε, started[i]? = some r ∧ o = .ok x ∧
            serial.1[i]? = some (some y) ∧ x.map Entity.state = y.map Entity.state) ∧
      e.world.conflicts = w.conflicts ∧
      (d.Candid → ∀ r t error, (calls r).aggregate = a →
        e.answer? r = some (t, .ok (.error error)) → error.isConflict = false) := by
  intro started serial
  obtain ⟨rfl, exclusive⟩ := make_eq_ok made
  have sound := run.sound exclusive driven clear
  obtain ⟨settled, hlog⟩ := sound.atRest rest
  have here (c : CommandCall) (hc : c ∈ started.map calls) : c.aggregate = a := by
    obtain ⟨r, hr, rfl⟩ := List.mem_map.1 hc
    exact (mem_started.1 hr).2.1
  obtain ⟨ends, written⟩ := Description.dispatchAll_foretold driven _ here clear₁ room
  rw [same] at ends written
  have answered {r t : Nat} {o : Ending (CommandResult S ε)} (ha : (calls r).aggregate = a)
      (ho : e.answer? r = some (t, o)) : (∃ p, o = .error (.pool p)) ∨
        ∃ (i : Nat) (x : CommandResult S ε), started[i]? = some r ∧ o = .ok x ∧
          (m.description.foretell (started.map calls)
            ((w.log a).map RecordedEvent.toDomain)).1[i]? = some (some (x.map Entity.state)) := by
    obtain pool | ⟨x, hx, hr, outcome⟩ := sound.answered ho
    · exact .inl pool
    · rw [ha] at hr
      obtain ⟨i, hi⟩ := List.getElem?_of_mem hr
      exact .inr ⟨i, x, hi, hx, settled.getElem? hi outcome⟩
  refine ⟨hlog.trans written.symm, fun r t o ha ho => ?_, sound.conflicts,
    fun candid r t error ha ho => ?_⟩
  · obtain pool | ⟨i, x, hi, hx, foretold⟩ := answered ha ho
    · exact .inl pool
    · rw [← ends, List.getElem?_map] at foretold
      obtain ⟨o', ho', ended⟩ := Option.map_eq_some_iff.1 foretold
      obtain ⟨y, rfl, agrees⟩ := Option.map_eq_some_iff.1 ended
      exact .inr ⟨i, x, y, hi, hx, ho', agrees.symm⟩
  · obtain ⟨p, hp⟩ | ⟨i, x, _, hx, foretold⟩ := answered ha ho
    · cases hp
    · cases hx
      exact candid.foretell _ _ (List.mem_of_getElem? foretold)

/-- Three calls for one account, of which the second has no time. -/
theorem second_call_is_skipped :
    let a : AggregateId := ⟨Account.typeName, "1"⟩
    let calls : Nat → CommandCall
      | 0 => ⟨a, "open", Account.Open.toJson ⟨"ada", 100⟩, none, none⟩
      | 1 => ⟨a, "deposit", Account.Change.toJson ⟨50⟩, some 0, none⟩
      | _ => ⟨a, "withdraw", Account.Change.toJson ⟨30⟩, none, none⟩
    let w : World := { readings := fun n => ⟨n, 0⟩, shares := fun _ => 0 }
    ∃ (m : CommandEngine Account Account.Refusal) (e : Engine _),
      make {} Account.description = .ok m ∧ m.Run calls w [0, 1, 2] e ∧
        e.started calls [0, 1, 2] a = [0, 2] ∧ (e.world.log a).length = 2 ∧
        (e.world.log a).map RecordedEvent.toDomain =
          ((Account.description.dispatchAll [calls 0, calls 2] w).2.log a).map
            RecordedEvent.toDomain ∧
        ∀ r t error, (calls r).aggregate = a → e.answer? r = some (t, .ok (.error error)) →
          error.isConflict = false := by
  intro a calls w
  let m : CommandEngine Account Account.Refusal :=
    ⟨{}, Account.description, StoreAccess.direct.retrying {}⟩
  let called (e : Engine _) : Engine _ := (e.spawn (m.request (calls e.requests.length) false)).2
  let e₃ := called (called (called (.ofWorld w m.config.pool)))
  let e := e₃.runFor (fun _ => false) 20
  have sent : m.Run calls w [] e₃ := ((Run.start.spawn false).spawn false).spawn false
  have run : m.Run calls w ([] ++ e₃.submissions (fun _ => false) 20) e :=
    sent.runFor _ 20 (by decide +kernel)
  have submissions : [] ++ e₃.submissions (fun _ => false) 20 = [0, 1, 2] := by decide +kernel
  rw [submissions] at run
  have started : e.started calls [0, 1, 2] a = [0, 2] := by decide +kernel
  have made : make {} Account.description = .ok m := rfl
  have clear : w.link.IsClear := ⟨rfl, rfl, rfl⟩
  have serial := runs_are_serial made Account.stateDriven clear run (a := a)
    (by rw [started]; decide +kernel) clear rfl (by rw [started]; decide +kernel)
  refine ⟨m, e, made, run, started, by decide +kernel, ?_, serial.2.2.2 Account.candid⟩
  have log := serial.1
  rw [started] at log
  exact log

end CommandEngine
end EventSourcing
