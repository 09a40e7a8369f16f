import Mathlib.Data.List.Perm.Subperm
import EventSourcing.Proofs.Pool.Handlers

/-!
Capacity of a pool.
Callers come to the pool in any order, and their work ends, breaks down, or goes on after its caller
has been told of a timeout. No slot is lost or given twice by it, the count of those who wait is right,
a caller is turned away only where there is no room, and slots are handed out in the order of arrival.
-/
namespace EventSourcing

namespace Request
variable {ρ : Type}

def isWaiting (q : Request ρ) : Bool :=
  match q.stage with
  | .waiting => true
  | _ => false

/-- Whether the work has begun and has not stopped. -/
def isAtWork (q : Request ρ) : Bool := q.begun.isSome && !q.hasEnded

/-- Whether the work has been given a slot and has not stopped. -/
def hasSlot (q : Request ρ) : Bool :=
  !q.hasEnded && match q.stage with
    | .running => true
    | .over => q.cancelled
    | _ => false

theorem hasSlot_iff {q : Request ρ} : q.hasSlot = true ↔ q.HoldsSlot := by
  rw [hasSlot, HoldsSlot, Bool.and_eq_true, Bool.not_eq_true']
  cases q.stage <;> simp

theorem isWaiting_iff {q : Request ρ} : q.isWaiting = true ↔ q.stage = .waiting := by
  rw [isWaiting]
  split
  · rename_i waiting
    simp [waiting]
  · rename_i other
    exact iff_of_false (by simp) other

end Request

namespace Engine
variable {ρ : Type}

/-- The callers that have come to the pool, and have neither taken a slot nor given up. -/
def waitingCallers (e : Engine ρ) : List Nat := e.requestsWith Request.isWaiting

/-- The units of work that hold a slot. -/
def unitsWithSlot (e : Engine ρ) : List Nat := e.requestsWith Request.hasSlot

/-- The units of work that run, whatever their callers were told. -/
def unitsAtWork (e : Engine ρ) : List Nat := e.requestsWith Request.isAtWork

/-- How many others waited when the caller of a request was turned away. -/
def turnedAway? (e : Engine ρ) (r : Nat) : Option Nat := (e.request? r).bind Request.turnedAway?

end Engine

namespace Turn
variable {ρ : Type}

/-- The callers that are handed a slot in the turn. -/
def given (t : Turn ρ) : List Nat := t.after.pool.handed.filter (· ∉ t.engine.pool.handed)

/-- The caller of a request is turned away in the turn, since so many others wait. -/
def TurnsAway (t : Turn ρ) (r waiting : Nat) : Prop :=
  t.engine.turnedAway? r = none ∧ t.after.turnedAway? r = some waiting

end Turn

namespace PoolTraffic
open Engine
variable {ρ : Type} {sent : List Nat} {e e' e₀ : Engine ρ} {r : Nat} {q : Request ρ}
  {clock : Engine ρ → Nat → Prop} {t : Turn ρ} {ts : List (Turn ρ)} {s : Signal} {c : PoolConfig}

/-- All requests go to the pool. -/
abbrev Pooling (_ : Nat) (q : Request ρ) : Prop := q.route = .pool

/-- What is set aside or comes due need not matter for callers and their pool. -/
theorem Orderly.alike (h : Orderly e sent) (booked : e'.Booked sent)
    (requests : e'.requests = e.requests) (pool : e'.pool = e.pool)
    (signals : ∀ d ∈ e'.agenda, d.signal.isPooling = true)
    (due : ∀ r, 0 < e'.due (.work r) → 0 < e.due (.work r)) : Orderly e' sent := by
  have same (r : Nat) : e'.request? r = e.request? r := congrArg (·[r]?) requests
  have waits (r : Nat) : e'.Waits r ↔ e.Waits r := by rw [Waits, Waits, stage?, stage?, same]
  have holds (r : Nat) : e'.Holds r ↔ e.Holds r := by rw [Holds, Holds, same]
  refine ⟨booked, signals, fun r q hq => ?_, fun r q hq => ?_, ?_, ?_, ?_⟩
  · rw [same] at hq
    have fits := h.fits r q hq
    exact { fits with ready := fun now => fits.ready (due r now) }
  · rw [same] at hq
    exact h.unsent r q hq
  · rw [pool]
    exact h.serves.congr waits holds
  · rw [pool]
    exact fun isOpen r hr => h.keeps isOpen r ((waits r).1 hr)
  · rw [pool]
    exact h.bounded

/-- A new request has only the properties that it brings along. -/
theorem exists_request?_add {P : Request ρ → Prop} (new : ¬P q) :
    (∃ q', (e.add q).2.request? r = some q' ∧ P q') ↔ ∃ q', e.request? r = some q' ∧ P q' := by
  rw [request?_add]
  split
  · rename_i hr
    subst hr
    rw [request?_length]
    simp [new]
  · exact .rfl

theorem Orderly.add (h : Orderly e sent) (new : q.IsNew) (route : q.route = .pool) :
    Orderly (e.add q).2 sent := by
  have pending : q.stage = .pending ∧ q.answer = none := by
    obtain ⟨_, _, _, _, rfl⟩ := new
    exact ⟨rfl, rfl⟩
  have early : q.isFresh = true ∧ q.cancelled = false ∧ q.begun = none := by
    obtain ⟨_, _, _, _, rfl⟩ := new
    exact ⟨rfl, rfl, rfl⟩
  have waits (r : Nat) : (e.add q).2.Waits r ↔ e.Waits r := by
    rw [Waits, Waits, stage?, stage?, Option.map_eq_some_iff, Option.map_eq_some_iff]
    exact exists_request?_add (by simp [pending.1])
  have holds (r : Nat) : (e.add q).2.Holds r ↔ e.Holds r :=
    exists_request?_add fun slot => slot.not_pending pending.1
  refine ⟨h.booked.add q, h.signals, fun r q' hq' => ?_, fun r q' hq' unsent => ?_,
    h.serves.congr waits holds, fun isOpen r hr => h.keeps isOpen r ((waits r).1 hr), h.bounded⟩
  · rw [request?_add] at hq'
    split at hq'
    · rename_i hr
      cases hq'
      subst hr
      have idle := h.booked.idle
      refine ⟨route, fun _ => early, fun old => ?_, fun begun => absurd early.2.2 begun,
        fun due => ?_, by simp [pending.1], fun o ended => ?_⟩
      · rw [early.1] at old
        cases old
      · change 0 < e.due (.work e.requests.length) at due
        omega
      · have fresh := early.1
        rw [Request.isFresh, ended] at fresh
        cases fresh
    · exact h.fits r q' hq'
  · rw [request?_add] at hq'
    split at hq'
    · cases hq'
      exact pending
    · exact h.unsent r q' hq' unsent

/-- Between its turns, the callers and their pool are in order, and all who have called have come. -/
structure Steady (e : Engine ρ) (sent : List Nat) : Prop where
  order : Orderly e sent
  came : ∀ r ∈ sent, ∃ q, e.request? r = some q ∧ q.stage ≠ .pending

theorem steady_ofWorld (w : World) (c : PoolConfig) : Steady (ofWorld (ρ := ρ) w c) [] where
  order :=
    { booked := booked_ofWorld w c
      signals := fun d hd => by cases hd
      fits := fun r q hq => by cases hq
      unsent := fun r q hq => by cases hq
      serves :=
        { waits := fun r hr => by cases hr
          runs := fun r => iff_of_false List.not_mem_nil fun ⟨q, hq, _⟩ => by cases hq
          once := .nil
          closed := fun _ => rfl
          slots := rfl }
      keeps := fun _ r hr => by cases hr
      bounded := ⟨fun line => absurd rfl line, Nat.zero_le _⟩ }
  came r hr := by cases hr

namespace Steady

theorem of_requests (h : Steady e sent) (order : Orderly e' sent)
    (requests : ∀ r, (e.request? r).isSome → e'.request? r = e.request? r) : Steady e' sent where
  order := order
  came r hr := by
    obtain ⟨q, hq, came⟩ := h.came r hr
    refine ⟨q, ?_, came⟩
    rw [requests r (by rw [hq]; rfl)]
    exact hq

theorem next (h : Steady e sent) (next : Next Pooling clock e t) :
    Steady t.engine sent ∧ Meets t.engine sent t.signal ∧ t.engine.pool = e.pool := by
  obtain ⟨booked, calls⟩ := h.order.booked.next next
  cases next with
  | call q new fit =>
      refine ⟨h.of_requests (h.order.add new fit) fun r made => ?_, ⟨rfl, calls, ?_⟩, rfl⟩
      · exact request?_add_of_isSome made q
      · rintro r hr
        cases hr
  | @due before d after t ha later hdue allowed =>
      have some : d ∈ e.agenda := by
        rw [ha]
        exact List.mem_append_right _ List.mem_cons_self
      have order : Orderly (e.taken before after t) sent := by
        refine h.order.alike booked rfl rfl (fun d' hd' => h.order.signals d' ?_) fun r hr => ?_
        · rw [ha]
          obtain before | after := List.mem_append.1 hd'
          · exact List.mem_append_left _ before
          · exact List.mem_append_right _ (List.mem_cons_of_mem d after)
        · have due := due_taken ha t (.work r)
          omega
      refine ⟨h.of_requests order fun _ _ => rfl, ⟨h.order.signals d some, calls, ?_⟩, rfl⟩
      intro r hr q hq fresh
      have due := due_taken ha t (.work r)
      rw [if_pos hr] at due
      exact (h.order.fits r q hq).ready (by omega) fresh
  | close drain =>
      refine ⟨h.of_requests ?_ fun _ _ => rfl, ⟨rfl, calls, ?_⟩, rfl⟩
      · exact h.order.alike booked rfl rfl h.order.signals fun _ => id
      · rintro r hr
        cases hr

theorem between (h : Steady e sent) (between : Between Pooling clock e e') :
    Steady e' sent ∧ e'.pool = e.pool := by
  have booked := h.order.booked.between between
  cases between with
  | spawn q new fit =>
      have added := h.order.add new fit
      refine ⟨h.of_requests (added.alike booked rfl rfl (fun d hd => ?_) fun r hr => ?_)
        fun r made => ?_, rfl⟩
      · obtain rfl | hd := Agenda.mem_push.1 hd
        · rfl
        · exact added.signals d hd
      · rw [spawn, due_wake, if_neg (by simp), Nat.add_zero] at hr
        exact hr
      · exact request?_add_of_isSome made q
  | spawnShutDown =>
      refine ⟨h.of_requests (h.order.alike booked rfl rfl (fun d hd => ?_) fun r hr => ?_)
        fun _ _ => rfl, rfl⟩
      · obtain rfl | hd := Agenda.mem_push.1 hd
        · rfl
        · exact h.order.signals d hd
      · rw [spawnShutDown, due_wake, if_neg (by simp), Nat.add_zero] at hr
        exact hr
  | aside w later allowed =>
      refine ⟨h.of_requests ?_ fun _ _ => rfl, rfl⟩
      exact h.order.alike booked rfl rfl h.order.signals fun _ => id

section Handle
variable (h : Steady e sent) (meets : Meets e sent s)
include h meets

theorem handle : Steady (e.handle s) (sent ++ s.submits) := by
  obtain ⟨arrived, _, changes⟩ := h.order.handle meets
  refine ⟨changes.orderly (h.order.submits meets), fun r hr => ?_⟩
  obtain old | new := List.mem_append.1 hr
  · obtain ⟨q, hq, came⟩ := h.came r old
    obtain ⟨q', hq', came', _⟩ := changes.past hq came
    exact ⟨q', hq', came'⟩
  · cases s with
    | call r' =>
        obtain ⟨_, _, _, q, hq, came, _⟩ := h.order.call meets rfl
        rw [List.mem_singleton.1 new]
        exact ⟨q, hq, came⟩
    | caller | worker | slot | outcome | work | close | drained => cases new

/-- A caller is turned away at its call, and only where no slot is free and all places to wait are
taken. -/
theorem turnsAway (r n : Nat) : (⟨e, s⟩ : Turn ρ).TurnsAway r n ↔ s = .call r ∧
    e.pool.closing = false ∧ e.pool.free = 0 ∧ e.pool.config.maxPending ≤ e.pool.waiting ∧
      n = e.pool.waiting := by
  rw [Turn.TurnsAway, Turn.after]
  constructor
  · rintro ⟨before, after⟩
    by_cases hs : s = .call r
    · obtain ⟨_, _, _, q, hq, _, turned⟩ := h.order.call meets hs
      rw [turnedAway?, hq] at after
      exact ⟨hs, Pool.arrive_saturated.1 ((turned n).1 after)⟩
    · obtain ⟨_, _, changes⟩ := h.order.handle meets
      by_cases hr : r ∈ sent
      · obtain ⟨q, hq, came⟩ := h.came r hr
        obtain ⟨q', hq', _, same⟩ := changes.past hq came
        rw [turnedAway?, hq] at before
        rw [turnedAway?, hq'] at after
        have turned : q.turnedAway? = some n := same n after
        rw [Option.bind_some, turned] at before
        cases before
      · have unsent : r ∉ sent ++ s.submits := by
          intro called
          obtain old | new := List.mem_append.1 called
          · exact hr old
          · cases s with
            | call r' => exact hs (congrArg Signal.call (List.mem_singleton.1 new).symm)
            | caller | worker | slot | outcome | work | close | drained => cases new
        rw [turnedAway?, changes.unsent unsent, ← turnedAway?, before] at after
        cases after
  · rintro ⟨hs, full⟩
    obtain ⟨unsent, made, _⟩ := meets.calls r hs
    obtain ⟨q, hq⟩ := Option.isSome_iff_exists.1 made
    obtain ⟨_, _, _, q', hq', _, turned⟩ := h.order.call meets hs
    have silent : q.turnedAway? = none := by
      rw [Request.turnedAway?, (h.order.unsent r q hq unsent).2]
    refine ⟨?_, ?_⟩
    · rw [turnedAway?, hq]
      exact silent
    · rw [turnedAway?, hq']
      exact (turned n).2 (Pool.arrive_saturated.2 full)

/-- Slots are handed to those who stand in line, or come to stand there, in their order. -/
theorem given : ((⟨e, s⟩ : Turn ρ).given ++ (e.handle s).pool.line).Sublist
    (e.pool.line ++ s.submits) := by
  obtain ⟨arrived, self, changes⟩ := h.order.handle meets
  obtain ⟨_, kept, given, handed, stay, line⟩ := changes.advances
  have fresh (r : Nat) (hr : r ∈ given) : r ∉ e.pool.handed := by
    intro has
    obtain inLine | come := List.mem_append.1 (line.subset (List.mem_append_left _ hr))
    · exact h.order.serves.not_in_line has inLine
    · have waits := h.order.serves.waits r (List.mem_append_right _ has)
      have called := self.subset come
      cases s with
      | call r' =>
          obtain ⟨q, hq, waiting⟩ := Option.map_eq_some_iff.1 waits
          obtain ⟨unsent, _⟩ := meets.calls r' rfl
          rw [← List.mem_singleton.1 called] at unsent
          exact unsent (h.order.called hq (by simp [waiting]))
      | caller | worker | slot | outcome | work | close | drained => cases called
  have new : (⟨e, s⟩ : Turn ρ).given = given := by
    rw [Turn.given, Turn.after, handed, List.filter_append]
    have old : kept.filter (· ∉ e.pool.handed) = [] := by
      rw [List.filter_eq_nil_iff]
      intro r hr
      simpa using stay.subset hr
    rw [old, List.nil_append, List.filter_eq_self]
    intro r hr
    simpa using fresh r hr
  rw [new]
  exact line.trans (self.append_left e.pool.line)

end Handle

theorem course (start : Steady e₀ []) (course : Course Pooling clock e₀ ts e) :
    Steady e (Turn.submitted ts) := by
  induction course with
  | start => exact start
  | turn course next ih =>
      obtain ⟨steady, meets, _⟩ := ih.next next
      rw [Turn.submitted_concat]
      exact steady.handle meets
  | between course between ih => exact (ih.between between).1

/-- Those who were handed a slot, and after them those who stand in line, in the order of their
calls. -/
theorem in_order (start : Steady e₀ []) (empty : e₀.pool.line = [])
    (course : Course Pooling clock e₀ ts e) :
    (ts.flatMap Turn.given ++ e.pool.line).Sublist (Turn.submitted ts) := by
  induction course with
  | start =>
      rw [empty]
      exact List.nil_sublist _
  | @turn ts e t course next ih =>
      obtain ⟨steady, meets, pool⟩ := (start.course course).next next
      have given : (t.given ++ t.after.pool.line).Sublist (e.pool.line ++ t.signal.submits) := by
        rw [← pool]
        exact steady.given meets
      rw [Turn.submitted_concat, List.flatMap_append, List.flatMap_singleton, List.append_assoc]
      refine (given.append_left _).trans ?_
      rw [← List.append_assoc]
      exact ih.append_right _
  | between course between ih =>
      obtain ⟨_, pool⟩ := (start.course course).between between
      rw [pool]
      exact ih

theorem config (start : Steady e₀ []) (course : Course Pooling clock e₀ ts e) :
    e.pool.config = e₀.pool.config := by
  induction course with
  | start => rfl
  | turn course next ih =>
      obtain ⟨steady, meets, pool⟩ := (start.course course).next next
      obtain ⟨_, _, changes⟩ := steady.order.handle meets
      rw [← ih, ← pool]
      exact changes.advances.config
  | between course between ih =>
      obtain ⟨_, pool⟩ := (start.course course).between between
      rw [pool]
      exact ih

theorem turns (start : Steady e₀ []) (course : Course Pooling clock e₀ ts e)
    (ht : t ∈ ts) : ∃ sent, Steady t.engine sent ∧ Meets t.engine sent t.signal ∧
      t.engine.pool.config = e₀.pool.config := by
  induction course with
  | start => cases ht
  | between _ _ ih => exact ih ht
  | turn course next ih =>
      obtain before | last := List.mem_append.1 ht
      · exact ih before
      · obtain ⟨steady, meets, pool⟩ := (start.course course).next next
        rw [List.mem_singleton.1 last]
        refine ⟨_, steady, meets, ?_⟩
        rw [pool]
        exact start.config course

section Counts
variable (h : Steady e sent)
include h

theorem unitsWithSlot : e.unitsWithSlot.length = e.pool.running.length := by
  refine List.Perm.length_eq ((List.perm_ext_iff_of_nodup (e.nodup_requestsWith _)
    h.order.serves.nodup_running).2 fun r => ?_)
  rw [mem_requestsWith, h.order.serves.runs]
  exact exists_congr fun q => and_congr_right fun _ => Request.hasSlot_iff

theorem unitsAtWork : e.unitsAtWork.length ≤ e.unitsWithSlot.length := by
  refine (List.subperm_of_subset (e.nodup_requestsWith _) fun r hr => ?_).length_le
  obtain ⟨q, hq, works⟩ := mem_requestsWith.1 hr
  rw [Request.isAtWork, Bool.and_eq_true, Bool.not_eq_true', Option.isSome_iff_ne_none] at works
  have holds := (h.order.fits r q hq).begun works.1 works.2
  exact mem_requestsWith.2 ⟨q, hq, Request.hasSlot_iff.2 holds⟩

theorem waitingCallers (isOpen : e.pool.closing = false) :
    e.pool.waiting = e.waitingCallers.length := by
  rw [Pool.waiting, ← List.length_append]
  have once : (e.pool.line ++ e.pool.handed).Nodup := (List.nodup_append.1 h.order.serves.once).1
  refine List.Perm.length_eq ((List.perm_ext_iff_of_nodup once (e.nodup_requestsWith _)).2
    fun r => ?_)
  have waits : r ∈ e.waitingCallers ↔ e.Waits r := by
    rw [Engine.waitingCallers, mem_requestsWith, Waits, stage?, Option.map_eq_some_iff]
    exact exists_congr fun q => and_congr_right fun _ => Request.isWaiting_iff
  rw [← Engine.waitingCallers, waits]
  exact ⟨h.order.serves.waits r, h.order.keeps isOpen r⟩

end Counts
end Steady

/-- Whatever callers do, and however their work ends: no more units run at a time than the pool has
slots, those included whose callers have been told of a timeout; each slot is free, has been handed
over, or is held by a unit of work. Before the pool closes it counts those who wait, and never more
than allowed. A caller is turned away at its call, and only where no slot is free and all places to
wait are taken. Slots are handed out in the order of the calls, and none is free while somebody
stands in line. -/
theorem pool_capacity_is_conserved (w : World) (c : PoolConfig)
    (course : Course Pooling clock (.ofWorld w c) ts e) :
    e.unitsAtWork.length ≤ max 1 c.maxConcurrency ∧
      e.pool.free + e.pool.handed.length + e.unitsWithSlot.length = max 1 c.maxConcurrency ∧
      (e.pool.closing = false → e.pool.waiting = e.waitingCallers.length) ∧
      e.pool.waiting ≤ c.maxPending ∧
      (∀ t ∈ ts, ∀ r n, t.TurnsAway r n ↔ t.signal = .call r ∧ t.engine.pool.closing = false ∧
        t.engine.pool.free = 0 ∧ c.maxPending ≤ t.engine.pool.waiting ∧
        n = t.engine.pool.waiting) ∧
      (Turn.submitted ts).Nodup ∧
      (ts.flatMap Turn.given ++ e.pool.line).Sublist (Turn.submitted ts) ∧
      (e.pool.line ≠ [] → e.pool.free = 0) := by
  have start : Steady (.ofWorld w c : Engine ρ) [] := steady_ofWorld w c
  have steady := start.course course
  have config : e.pool.config = c := start.config course
  have slots := steady.order.serves.slots
  have held := steady.unitsWithSlot
  have total : e.pool.free + e.pool.handed.length + e.unitsWithSlot.length =
      max 1 c.maxConcurrency := by
    rw [config, PoolConfig.slots] at slots
    omega
  refine ⟨?_, total, steady.waitingCallers, ?_, fun t ht r n => ?_, steady.order.booked.once,
    start.in_order rfl course, steady.order.bounded.busy⟩
  · have working := steady.unitsAtWork
    omega
  · rw [← config]
    exact steady.order.bounded.room
  · obtain ⟨sent, steady, meets, config⟩ := start.turns course ht
    have same : t.engine.pool.config = c := config
    rw [← same]
    exact steady.turnsAway meets r n

/-- Work goes on in the only slot after its caller has been told of a timeout, one waits, and another
is turned away; when the work ends, the slot goes to the one who waited. -/
theorem overdue_work_keeps_its_slot :
    let c : PoolConfig := { maxConcurrency := 1, maxPending := 1 }
    let w : World := { readings := fun n => ⟨n, 0⟩, shares := fun _ => 0 }
    ∃ (ts ts' : List (Turn Unit)) (e e' : Engine Unit),
      Course Pooling (fun _ _ => True) (.ofWorld w c) ts e ∧
        Course Pooling (fun _ _ => True) (.ofWorld w c) (ts ++ ts') e' ∧
        e.answer? 0 = some (10, .error (.pool (.timeout 10))) ∧ e.unitsAtWork = [0] ∧
        e.waitingCallers.length = 1 ∧ (∃ t ∈ ts, t.TurnsAway 2 1) ∧
        (ts ++ ts').flatMap Turn.given = [1] ∧ e'.unitsAtWork = [] ∧
        e'.pool.free + e'.unitsWithSlot.length = 1 := by
  intro c w
  let q (limit : Nat) : Request Unit :=
    { route := .pool, limit := some limit, foreground := true, work := .fresh (.sleep 50 (.done ())) }
  have new (limit : Nat) : (q limit).IsNew := ⟨_, _, _, _, rfl⟩
  let e₀ : Engine Unit := .ofWorld w c
  have spawns {e : Engine Unit} (h : Course Pooling (fun _ _ => True) e₀ [] e)
      (limit : Nat) : Course Pooling (fun _ _ => True) e₀ [] (e.spawn (q limit)).2 :=
    h.between (.spawn (q limit) (new limit) rfl)
  let e₃ := ((e₀.spawn (q 10)).2.spawn (q 100)).2.spawn (q 100)
  have spawned : Course Pooling (fun _ _ => True) e₀ [] e₃.2 :=
    spawns (spawns (spawns .start 10) 100) 100
  let ts := [] ++ e₃.2.turns (quietBefore 20) 40
  let e := e₃.2.runFor (quietBefore 20) 40
  let ts' := e.turns (fun _ => false) 40
  let e' := e.runFor (fun _ => false) 40
  have course : Course Pooling (fun _ _ => True) e₀ ts e :=
    spawned.runFor (fun _ _ => trivial) (quietBefore 20) 40
  have course' : Course Pooling (fun _ _ => True) e₀ (ts ++ ts') e' :=
    course.runFor (fun _ _ => trivial) (fun _ => false) 40
  have answer : e.answer? 0 = some (10, .error (.pool (.timeout 10))) := by decide +kernel
  have works : e.unitsAtWork = [0] := by decide +kernel
  have isOpen : e.pool.closing = false := by decide +kernel
  have waits : e.pool.waiting = 1 := by decide +kernel
  have full : ∃ t ∈ ts, t.signal = .call 2 ∧ t.engine.pool.closing = false ∧
      t.engine.pool.free = 0 ∧ c.maxPending ≤ t.engine.pool.waiting ∧
      1 = t.engine.pool.waiting := by decide +kernel
  have given : (ts ++ ts').flatMap Turn.given = [1] := by decide +kernel
  have idle : e'.unitsAtWork = [] := by decide +kernel
  have taken : e'.pool.handed.length = 0 := by decide +kernel
  clear_value ts e ts' e'
  obtain ⟨_, _, count, _, turned, _⟩ := pool_capacity_is_conserved w c course
  obtain ⟨_, total, _⟩ := pool_capacity_is_conserved w c course'
  rw [taken] at total
  obtain ⟨t, ht, away⟩ := full
  exact ⟨ts, ts', e, e', course, course', answer, works, (count isOpen).symm.trans waits,
    ⟨t, ht, (turned t ht 2 1).2 away⟩, given, idle, total⟩

end PoolTraffic
end EventSourcing
