import Mathlib.Logic.Relation
import EventSourcing.Proofs.Engine.Work

/-!
Changes of the engine.
Whatever an engine does when it handles a signal is a chain of changes of a few kinds: a request
moves, together with the pool, its caller is told, its work sleeps or ends, or a signal becomes due.
An invariant that each of these keeps is kept by the engine. Only two things stand apart: the call
itself, which sets the time that everything else is measured by, and the beginning of work.
-/
namespace EventSourcing

namespace Request
variable {ρ : Type} {q : Request ρ}

/-- The request with its job done and its result on the way. -/
def close (q : Request ρ) (o : Ending ρ) : Request ρ := { q with stage := .over, result := some o }

/-- The request has not come to a slot. -/
def isEarly (q : Request ρ) : Prop := q.stage = .pending ∨ q.stage = .waiting

/-- The work of the request has a slot, and it has not stopped. -/
def InPlace (q : Request ρ) : Prop :=
  (q.stage = .running ∨ ∃ o, q.stage = .overrun o) ∧ q.hasEnded = false

theorem hasEnded_of_isFresh (h : q.isFresh = true) : q.hasEnded = false := by
  rw [isFresh] at h
  rw [hasEnded]
  cases hw : q.work <;> simp [hw] at h ⊢

theorem le_of_not_overdue {now t : Nat} (h : q.overdue now = false) (ht : q.deadline? = some t) :
    now ≤ t := by
  rw [overdue, ht] at h
  simp only [decide_eq_false_iff_not] at h
  omega

end Request

/-- How a request comes to a slot: at once where one is free, else by the slot handed to it. -/
inductive Seat {ρ : Type} (r : Nat) (p : Pool) (q : Request ρ) : Pool → Prop where
  | free {p' : Pool} (pending : q.stage = .pending) (h : p.arrive r = (.admitted, p')) :
      Seat r p q p'
  | handed (waiting : q.stage = .waiting) (has : r ∈ p.handed) : Seat r p q (p.take r)

/-- How a request moves at a time, and the pool with it. -/
inductive Shift {ρ : Type} (now r : Nat) (p : Pool) (q : Request ρ) : Pool → Request ρ → Prop where
  | noted (l : Nat) : Shift now r p q p { q with poolLimit := l }
  | replied (o : Ending ρ) (unreplied : q.answer = none)
      (known : q.result = some o ∨
        q.overdue now = true ∧ ∃ l, o = .error (.pool (.timeout l))) :
      Shift now r p q p { q with answer := some (now, o) }
  | skipped (l : Nat) (pending : q.stage = .pending) (late : q.overdue now = true) :
      Shift now r p q p (q.close (.error (.pool (.timeout l))))
  | refused {why : PoolError} {p' : Pool} (pending : q.stage = .pending) (idle : q.begun = none)
      (h : p.arrive r = (.refused why, p')) : Shift now r p q p (q.close (.error (.pool why)))
  | queued {p' : Pool} (pending : q.stage = .pending) (h : p.arrive r = (.inLine, p')) :
      Shift now r p q p' { q with stage := .waiting }
  | expired (l : Nat) (waiting : q.stage = .waiting) (late : q.overdue now = true)
      (slotless : r ∉ p.handed) :
      Shift now r p q (p.leave r) (q.close (.error (.pool (.timeout l))))
  | dismissed (waiting : q.stage = .waiting) (idle : q.begun = none) (closing : p.closing = true)
      (slotless : r ∉ p.handed) :
      Shift now r p q p (q.close (.error (.pool .shuttingDown)))
  | declined (waiting : q.stage = .waiting) (idle : q.begun = none) (closing : p.closing = true)
      (has : r ∈ p.handed) :
      Shift now r p q (p.decline r).2 (q.close (.error (.pool .shuttingDown)))
  | seated {p' : Pool} (fresh : q.isFresh = true) (seat : Seat r p q p')
      (early : q.overdue now = false) :
      Shift now r p q p' { q with stage := .running, cancelled := p'.cancelled }
  /-- Work whose time is up when it comes to a slot is asked to stop before it can begin. -/
  | seatedLate {p' : Pool} (fresh : q.isFresh = true) (seat : Seat r p q p')
      (late : q.overdue now = true) :
      Shift now r p q p' { q with stage := .running, cancelled := true }
  | overran (l : Nat) (running : q.stage = .running) (goes : q.hasEnded = false)
      (late : q.overdue now = true) :
      Shift now r p q p { q with stage := .overrun (.error (.pool (.timeout l))) }
  | slept (wake : Nat) (wakeable : Bool) (rest : Bool → Activity ρ) (place : q.InPlace) :
      Shift now r p q p { q with work := .asleep wake wakeable rest }
  /-- Work that is dropped before it has begun ends too. -/
  | ended (o : Ending ρ) (place : q.InPlace)
      (how : (q.begun = none ∧ o = .error (.pool .shuttingDown)) ∨ (∃ x, o = .ok x) ∨
        o = .error (.pool .panicked)) :
      Shift now r p q (p.release r).2 { q with work := .ended o }
  | finished (o : Ending ρ)
      (how : (q.stage = .running ∧ q.work = .ended o) ∨
        q.stage = .overrun o ∧ q.hasEnded = true) :
      Shift now r p q p (q.close o)

section Shift
variable {ρ : Type} {now r : Nat} {p p' : Pool} {q q' : Request ρ} (h : Shift now r p q p' q')
include h

theorem Shift.limit_eq : q'.limit = q.limit := by
  cases h <;> rfl

theorem Shift.called_eq : q'.called = q.called := by
  cases h <;> rfl

theorem Shift.begun_eq : q'.begun = q.begun := by
  cases h <;> rfl

theorem Shift.overdue_eq (t : Nat) : q'.overdue t = q.overdue t := by
  rw [Request.overdue, Request.deadline?, h.limit_eq, h.called_eq, Request.overdue, Request.deadline?]

theorem Shift.isOver (isOver : q.stage = .over) : q'.stage = .over := by
  cases h with
  | noted | replied => exact isOver
  | slept _ _ _ place | ended _ place =>
      obtain ⟨running | ⟨o, overran⟩, _⟩ := place
      · simp [running] at isOver
      · simp [overran] at isOver
  | skipped | refused | expired | dismissed | declined | finished => rfl
  | queued pending => simp [pending] at isOver
  | seated _ seat | seatedLate _ seat =>
      cases seat with
      | free pending => simp [pending] at isOver
      | handed waiting => simp [waiting] at isOver
  | overran _ running => simp [running] at isOver

theorem Shift.answer {a : Nat × Ending ρ} (replied : q.answer = some a) : q'.answer = some a := by
  cases h with
  | replied o unreplied => simp [unreplied] at replied
  | _ => exact replied

end Shift

namespace Engine
variable {ρ : Type}

/-- What holds of a signal that becomes due: callers look for their answers after they have called,
and work that has not begun has come to a slot, in time unless it will be dropped. -/
def MayBeDue (e : Engine ρ) (sent : List Nat) (t : Nat) : Signal → Prop
  | .call _ => False
  | .caller r => r ∈ sent
  | .work r => ∀ q, e.request? r = some q → q.isFresh = true →
    ¬q.isEarly ∧ (q.cancelled = false → q.overdue t = false)
  | _ => True

/-- A change of the engine, after some requests have been sent. -/
inductive Change (sent : List Nat) (e : Engine ρ) : Engine ρ → Prop where
  | aside (lanes : Lanes) (drains : List Drain) (world : World) (same : world.now = e.now) :
      Change sent e { e with lanes, drains, world }
  | signal (t : Nat) (rank : Rank) (s : Signal) (later : e.now ≤ t) (fit : e.MayBeDue sent t s) :
      Change sent e (e.schedule t rank s)
  | ask (r : Nat) : Change sent e (e.modify r fun q => { q with cancelled := true })
  | close : Change sent e { e with pool := e.pool.close }
  | cancelAll : Change sent e { e with pool := { e.pool with cancelled := true } }
  | shift {r : Nat} {q : Request ρ} {p : Pool} (f : Request ρ → Request ρ)
      (hq : e.request? r = some q) (called : r ∈ sent) (h : Shift e.now r e.pool q p (f q)) :
      Change sent e { e.modify r f with pool := p }

def Changes (sent : List Nat) : Engine ρ → Engine ρ → Prop :=
  Relation.ReflTransGen (Change sent)

variable {lane : Nat → AggregateId} {sent : List Nat} {e e' : Engine ρ}
  {r : Nat} {q q' : Request ρ} {a : AggregateId} {o : Ending ρ} {p : Pool}

namespace Changes

theorem keep {P : Engine ρ → Prop} (h : Changes sent e e')
    (kept : ∀ e e', Change sent e e' → P e → P e') (start : P e) : P e' := by
  induction h with
  | refl => exact start
  | tail _ change ih => exact kept _ _ change ih

theorem now_eq (h : Changes sent e e') : e'.now = e.now := by
  refine h.keep (P := fun e' => e'.now = e.now) (fun e e' change same => ?_) rfl
  cases change with
  | aside lanes drains world now => exact now.trans same
  | signal | ask | close | cancelAll | shift => exact same

end Changes

section Links
variable (e)

theorem changes_aside (lanes : Lanes) (drains : List Drain) {world : World}
    (same : world.now = e.now) : Changes sent e { e with lanes, drains, world } :=
  .single (.aside lanes drains world same)

theorem changes_count (m : Metric) : Changes sent e (e.count m) :=
  e.changes_aside e.lanes e.drains rfl

theorem changes_wake (rank : Rank) {s : Signal} (fit : e.MayBeDue sent e.now s) :
    Changes sent e (e.wake rank s) :=
  .single (.signal e.now rank s (Nat.le_refl _) fit)

theorem changes_modifyDrain (d : Nat) (f : Drain → Drain) :
    Changes sent e (e.modifyDrain d f) :=
  e.changes_aside e.lanes (e.drains.modify d f) rfl

theorem changes_foldl {α : Type} (xs : List α) {f : Engine ρ → α → Engine ρ}
    (hf : ∀ e x, Changes sent e (f e x)) : Changes sent e (xs.foldl f e) := by
  refine List.foldlRecOn xs f .refl fun e' done x _ => ?_
  exact done.trans (hf e' x)

theorem changes_noticeEmpty : Changes sent e e.noticeEmpty := by
  rw [noticeEmpty]
  split
  · exact e.changes_foldl _ fun e d => e.changes_wake _ (s := .drained d.2) trivial
  · exact .refl

theorem changes_nudge (c : Nat) : Changes sent e (e.nudge c) := by
  rw [nudge]
  split
  · exact e.changes_wake _ trivial
  · exact .refl

/-- Whoever is handed a slot will look for it. -/
theorem changes_handed (c? : Option Nat) :
    Changes sent e (match c? with
      | none => e
      | some c => e.nudge c) := by
  cases c? with
  | none => exact .refl
  | some c => exact e.changes_nudge c

theorem changes_tellLane (r : Nat) (q : Request ρ) : Changes sent e (e.tellLane r q) := by
  rw [tellLane]
  split
  · exact e.changes_wake _ trivial
  · exact .refl

theorem changes_tellCaller (r : Nat) (q : Request ρ) : Changes sent e (e.tellCaller r q) := by
  rw [tellCaller]
  split
  · exact e.changes_wake _ trivial
  · exact .refl

theorem changes_cancel (r : Nat) : Changes sent e (e.cancel r) := by
  rw [cancel]
  cases hq : e.request? r with
  | none => exact .refl
  | some q =>
      have asked : Changes sent e (e.modify r fun q => { q with cancelled := true }) :=
        .single (.ask r)
      dsimp only
      split
      · rename_i wakeable
        refine asked.trans (changes_wake _ _ ?_)
        intro q' hq' fresh
        rw [request?_modify_self hq, Option.some.injEq] at hq'
        rw [← hq', Request.isFresh] at fresh
        rw [Request.isWakeable] at wakeable
        cases hw : q.work <;> simp [hw] at fresh wakeable
      · exact asked

end Links

theorem changes_shift (f : Request ρ → Request ρ) (hq : e.request? r = some q) (called : r ∈ sent)
    (h : Shift e.now r e.pool q p (f q)) :
    Changes sent e { e.modify r f with pool := p } :=
  .single (.shift f hq called h)

theorem changes_tell (hq : e.request? r = some q) (called : r ∈ sent) (unreplied : q.answer = none)
    (known : q.result = some o ∨
      q.overdue e.now = true ∧ ∃ l, o = .error (.pool (.timeout l))) :
    Changes sent e (e.tell r o) :=
  changes_shift _ hq called (.replied o unreplied known)

/-- Once a request is closed, its caller and its lane hear of it. -/
theorem Changes.finishJob (closed : Changes sent e (e'.modify r fun q => q.close o))
    (called : r ∈ sent) : Changes sent e (e'.finishJob r q' a o) := by
  let last : Engine ρ := e'.modify r fun q => q.close o
  have freed := closed.trans (last.changes_aside (last.lanes.finish a) last.drains rfl)
  have woken := freed.trans (changes_wake _ (.notice q'.foreground) (s := .caller r) called)
  exact woken.trans (changes_wake _ .immediate (s := .worker a) trivial)

theorem changes_finishJob (hq : e.request? r = some q) (called : r ∈ sent)
    (h : Shift e.now r e.pool q p (q.close o)) :
    Changes sent e ({ e with pool := p }.finishJob r q' a o) :=
  Changes.finishJob (changes_shift (fun q => q.close o) hq called h) called

/-- The pool has answered before the work came to a slot. -/
theorem changes_leavePool (hq : e.request? r = some q) (route : q.route = .laneThenPool a)
    (early : q.isEarly) (called : r ∈ sent)
    (h : Shift e.now r e.pool q p (q.close o)) :
    Changes sent e ({ e with pool := p }.leavePool r o) := by
  have hq' : ({ e with pool := p } : Engine ρ).request? r = some q := hq
  rw [leavePool]
  simp only [hq', route]
  obtain pending | waiting := early
  · simp only [pending]
    exact changes_finishJob hq called h
  · simp only [waiting]
    exact changes_finishJob hq called h

theorem changes_expire (hq : e.request? r = some q) (route : q.route = .laneThenPool a)
    (early : q.isEarly) (called : r ∈ sent) {l : Nat}
    (h : Shift e.now r e.pool q p (q.close (.error (.pool (.timeout l))))) :
    Changes sent e ({ e with pool := p }.expire r l) :=
  (e.changes_count .poolTimeouts).trans
    (changes_leavePool (e := e.count .poolTimeouts) hq route early called h)

/-- The time of work that has a slot is up. -/
theorem changes_overrun (hq : e.request? r = some q) (route : q.route = .laneThenPool a)
    (running : q.stage = .running) (goes : q.hasEnded = false) (late : q.overdue e.now = true)
    (called : r ∈ sent) (l : Nat) : Changes sent e (e.expire r l) := by
  have counted : Changes sent e (e.count .poolTimeouts) := e.changes_count .poolTimeouts
  have hq' : (e.count .poolTimeouts).request? r = some q := hq
  rw [expire, leavePool]
  simp only [hq', route, running, goes, Bool.false_eq_true, if_false]
  exact counted.trans (changes_shift _ hq' called (.overran l running goes late))

theorem changes_startWork (hq : e.request? r = some q) (route : q.route = .laneThenPool a)
    (fresh : q.isFresh = true) (called : r ∈ sent) (seat : Seat r e.pool q p) :
    Changes sent e ({ e with pool := p }.startWork r q) := by
  have goes := q.hasEnded_of_isFresh fresh
  rw [startWork]
  cases late : q.overdue e.now with
  | false =>
      let placed : Engine ρ :=
        { e.modify r (fun q => { q with stage := .running, cancelled := p.cancelled }) with pool := p }
      have hplaced : placed.request? r = some { q with stage := .running, cancelled := p.cancelled } :=
        request?_modify_self hq _
      have seated : Changes sent e placed :=
        changes_shift _ hq called (.seated fresh seat late)
      have due : Changes sent e (placed.wake .background (.work r)) := by
        refine seated.trans (changes_wake _ _ ?_)
        intro q' hq' _
        rw [hplaced, Option.some.injEq] at hq'
        rw [← hq']
        exact ⟨by simp [Request.isEarly], fun _ => late⟩
      change Changes sent e (if q.overdue e.now = true then _ else _)
      rw [late, if_neg Bool.false_ne_true]
      cases ht : q.deadline? with
      | none => exact due
      | some t =>
          exact due.trans (.single (.signal t _ _ (q.le_of_not_overdue late ht) trivial))
  | true =>
      let placed : Engine ρ :=
        { e.modify r (fun q => { q with stage := .running, cancelled := true }) with pool := p }
      have hplaced : placed.request? r = some { q with stage := .running, cancelled := true } :=
        request?_modify_self hq _
      have seated : Changes sent e placed :=
        changes_shift _ hq called (.seatedLate fresh seat late)
      have due : Changes sent e (placed.wake .background (.work r)) := by
        refine seated.trans (changes_wake _ _ ?_)
        intro q' hq' _
        rw [hplaced, Option.some.injEq] at hq'
        rw [← hq']
        exact ⟨by simp [Request.isEarly], fun free => by cases free⟩
      have stopped := changes_overrun
        (e := placed.wake .background (.work r)) hplaced route rfl goes late called q.poolLimit
      let first : Engine ρ :=
        { e with pool := p }.modify r fun q => { q with stage := .running, cancelled := p.cancelled }
      have hfirst : (first.wake .background (.work r)).request? r =
          some { q with stage := .running, cancelled := p.cancelled } :=
        request?_modify_self (e := { e with pool := p }) hq _
      have asleep : Request.isWakeable
          { q with stage := .running, cancelled := p.cancelled } = false := by
        rw [Request.isFresh] at fresh
        rw [Request.isWakeable]
        cases hw : q.work <;> simp [hw] at fresh ⊢
      have asked : (first.wake .background (.work r)).cancel r =
          placed.wake .background (.work r) := by
        rw [cancel]
        simp only [hfirst, asleep, Bool.false_eq_true, if_false]
        have both := modify_modify { e with pool := p } r
          (fun q => { q with stage := .running, cancelled := p.cancelled })
          fun q => { q with cancelled := true }
        exact congrArg (fun e : Engine ρ => e.wake .background (.work r)) both
      change Changes sent e (if q.overdue e.now = true then
        ((first.wake .background (.work r)).cancel r).expire r q.poolLimit else _)
      rw [late, if_pos rfl, asked]
      exact due.trans stopped

theorem changes_enterPool (hq : e.request? r = some q) (route : q.route = .laneThenPool a)
    (fresh : q.isFresh = true) (idle : q.begun = none) (pending : q.stage = .pending)
    (called : r ∈ sent) (l : Nat) : Changes sent e (e.enterPool r l) := by
  let noted := e.modify r fun q => { q with poolLimit := l }
  have hnoted : noted.request? r = some { q with poolLimit := l } := request?_modify_self hq _
  have start : Changes sent e noted := changes_shift _ hq called (.noted l)
  rw [enterPool]
  simp only [request?_modify_self hq]
  split
  · rename_i why _ harrive
    exact start.trans
      (changes_leavePool hnoted route (.inl pending) called (.refused pending idle harrive))
  · rename_i pool harrive
    exact start.trans (changes_startWork hnoted route fresh called (.free pending harrive))
  · rename_i pool harrive
    split
    · rename_i late
      exact start.trans
        (changes_expire hnoted route (.inl pending) called (.skipped l pending late))
    · rename_i early
      have queued : Changes sent noted
          { noted.modify r (fun q => { q with stage := .waiting }) with pool } :=
        changes_shift _ hnoted called (.queued pending harrive)
      split
      · rename_i t ht
        rw [Bool.not_eq_true] at early
        exact (start.trans queued).trans
          (.single (.signal t _ _ (Request.le_of_not_overdue early ht) trivial))
      · exact start.trans queued

theorem changes_startJob (hq : e.request? r = some q) (route : q.route = .laneThenPool a)
    (fresh : q.isFresh = true) (idle : q.begun = none) (pending : q.stage = .pending)
    (called : r ∈ sent) : Changes sent e (e.startJob r) := by
  rw [startJob]
  simp only [hq, route]
  split
  · rename_i late
    exact changes_finishJob hq called (.skipped _ pending late)
  · exact changes_enterPool hq route fresh idle pending called _

theorem changes_enterLane (e : Engine ρ) (r : Nat) (a : AggregateId) :
    Changes sent e (e.enterLane r a) := by
  rw [enterLane]
  have put : Changes sent e { e with lanes := (e.lanes.submit a r).2 } :=
    e.changes_aside (e.lanes.submit a r).2 e.drains rfl
  cases hl : e.lanes.submit a r with
  | mk isNew lanes =>
      rw [hl] at put
      cases isNew with
      | false => exact put
      | true =>
          have gauged : Changes sent e (gaugeLanes { e with lanes }) :=
            put.trans (changes_aside _ lanes e.drains rfl)
          exact gauged.trans (changes_wake _ .background (s := .worker a) trivial)

end Engine
end EventSourcing
