import EventSourcing.Proofs.Engine.Course
import EventSourcing.Proofs.Engine.Passing

/-!
What the handling of a signal leaves alone.
A signal is about one request at most, and all others stay as they are. While nobody shuts the pool
down, callers of the pool that belong to lanes are told to look from the background only, so that
whatever becomes due leaves those in front who have been waiting for their own time.
-/
namespace EventSourcing

theorem Due.before_iff {σ : Type} {a b : Due σ} :
    a.before b = true ↔ a.time < b.time ∨ a.time = b.time ∧ a.rank.place < b.rank.place := by
  simp [before]

namespace Agenda
variable {σ : Type} {fit late : Due σ → Prop} {a b c : Agenda σ} {d first : Due σ}

/-- Entries that fit have been put into an agenda, one after the other. -/
inductive Grown (fit : Due σ → Prop) (a : Agenda σ) : Agenda σ → Prop where
  | refl : Grown fit a a
  | push {b : Agenda σ} {d : Due σ} (h : Grown fit a b) (fits : fit d) : Grown fit a (push d b)

namespace Grown

theorem trans (h : Grown fit a b) (h' : Grown fit b c) : Grown fit a c := by
  induction h' with
  | refl => exact h
  | push _ fits ih => exact ih.push fits

theorem keep {P : Agenda σ → Prop} (h : Grown fit a b)
    (kept : ∀ b d, fit d → P b → P (Agenda.push d b)) (start : P a) : P b := by
  induction h with
  | refl => exact start
  | push _ fits ih => exact kept _ _ fits ih

theorem mem (h : Grown fit a b) (hd : d ∈ a) : d ∈ b :=
  h.keep (P := (d ∈ ·)) (fun _ _ _ old => mem_push.2 (.inr old)) hd

theorem all (h : Grown fit a b) (fits : ∀ d ∈ a, fit d) : ∀ d ∈ b, fit d := by
  refine h.keep (P := fun b => ∀ d ∈ b, fit d) (fun b d new old d' hd' => ?_) fits
  obtain rfl | hd' := mem_push.1 hd'
  · exact new
  · exact old d' hd'

end Grown

/-- An entry stands in the agenda, and of those that have to come late whatever stands before it is
due earlier. -/
def Leads (late : Due σ → Prop) (first : Due σ) (a : Agenda σ) : Prop :=
  ∃ before after, a = before ++ first :: after ∧
    ∀ d ∈ before, first.before d = false ∧ (late d → d.time < first.time)

namespace Leads

theorem mem (h : Leads late first a) : first ∈ a := by
  obtain ⟨before, after, rfl, _⟩ := h
  simp

/-- An entry that is made when none of the late ones is there comes before all of them. -/
theorem made (none : ∀ d ∈ a, ¬late d) : Leads late first (push first a) := by
  induction a with
  | nil => exact ⟨[], [], rfl, fun d hd => by cases hd⟩
  | cons d rest ih =>
      rw [push]
      split
      · exact ⟨[], d :: rest, rfl, fun d hd => by cases hd⟩
      · rename_i behind
        obtain ⟨before, after, same, ahead⟩ := ih fun d' hd' => none d' (List.mem_cons_of_mem d hd')
        refine ⟨d :: before, after, by rw [same]; rfl, fun d' hd' => ?_⟩
        obtain rfl | hd' := List.mem_cons.1 hd'
        · exact ⟨by simpa using behind, fun isLate => absurd isLate (none d' List.mem_cons_self)⟩
        · exact ahead d' hd'

theorem cons (h : Leads late first a) (behind : first.before d = false)
    (early : late d → d.time < first.time) : Leads late first (d :: a) := by
  obtain ⟨before, after, rfl, ahead⟩ := h
  refine ⟨d :: before, after, rfl, fun d' hd' => ?_⟩
  obtain rfl | hd' := List.mem_cons.1 hd'
  · exact ⟨behind, early⟩
  · exact ahead d' hd'

/-- New entries that have to come late do not get in front. -/
theorem push (h : Leads late first a) (yields : late d → first.rank.place ≤ d.rank.place) :
    Leads late first (push d a) := by
  have overtakes {d' : Due σ} (order : d.before d' = true)
      (behind : first.before d' = false ∨ d' = first) :
      first.before d = false ∧ (late d → d.time < first.time) := by
    rw [Due.before_iff] at order
    have behind : ¬(first.time < d'.time ∨
        first.time = d'.time ∧ first.rank.place < d'.rank.place) := by
      obtain behind | rfl := behind
      · rwa [← Due.before_iff, Bool.not_eq_true]
      · omega
    refine ⟨?_, fun isLate => ?_⟩
    · rw [← Bool.not_eq_true, Due.before_iff]
      omega
    · have place := yields isLate
      omega
  obtain ⟨before, after, rfl, ahead⟩ := h
  induction before with
  | nil =>
      rw [List.nil_append, Agenda.push]
      split
      · rename_i order
        obtain ⟨behind, early⟩ := overtakes order (.inr rfl)
        exact cons ⟨[], after, rfl, ahead⟩ behind early
      · exact ⟨[], Agenda.push d after, rfl, ahead⟩
  | cons e rest ih =>
      obtain ⟨behind, early⟩ := ahead e List.mem_cons_self
      rw [List.cons_append, Agenda.push]
      split
      · rename_i order
        obtain ⟨behind', early'⟩ := overtakes order (.inl behind)
        exact cons ⟨e :: rest, after, rfl, ahead⟩ behind' early'
      · exact cons (ih fun d' hd' => ahead d' (List.mem_cons_of_mem e hd')) behind early

/-- What is taken from the agenda is the entry itself, or is not late. -/
theorem taken (h : Leads late first (d :: a)) :
    d = first ∨ Leads late first a ∧ (late d → d.time < first.time) := by
  obtain ⟨before, after, same, ahead⟩ := h
  cases before with
  | nil =>
      rw [List.nil_append, List.cons.injEq] at same
      exact .inl same.1
  | cons d' rest =>
      rw [List.cons_append, List.cons.injEq] at same
      obtain ⟨rfl, rfl⟩ := same
      refine .inr ⟨⟨rest, after, rfl, fun d' hd' => ?_⟩, (ahead d List.mem_cons_self).2⟩
      exact ahead d' (List.mem_cons_of_mem d hd')

theorem grown (h : Leads late first a) (grown : Grown fit a b)
    (yields : ∀ d, fit d → late d → first.rank.place ≤ d.rank.place) : Leads late first b :=
  grown.keep (fun _ d fits old => old.push (yields d fits)) h

end Leads
end Agenda

theorem Pool.arrive_keeps {p p' : Pool} {r : Nat} {x : Pool.Admission}
    (h : p.arrive r = (x, p')) : p'.closing = p.closing ∧ p'.cancelled = p.cancelled := by
  rw [arrive] at h
  split at h
  · cases h
    exact ⟨rfl, rfl⟩
  · split at h
    · cases h
      exact ⟨rfl, rfl⟩
    · split at h
      · cases h
        exact ⟨rfl, rfl⟩
      · cases h
        exact ⟨rfl, rfl⟩

/-- What becomes due while nobody shuts the pool down. -/
def Due.IsMild (sent : List Nat) (d : Due Signal) : Prop :=
  match d.signal with
  | .slot r | .outcome r => r ∈ sent ∧ d.rank = .background
  | .close _ | .drained _ => False
  | _ => True

/-- A caller of the pool is to look at its slot or at its work. -/
def Due.Looks (r : Nat) (d : Due Signal) : Prop := d.signal = .slot r ∨ d.signal = .outcome r

theorem Due.IsMild.more {sent sent' : List Nat} {d : Due Signal} (h : d.IsMild sent)
    (more : sent ⊆ sent') : d.IsMild sent' := by
  obtain ⟨time, rank, s⟩ := d
  cases s with
  | slot | outcome => exact ⟨more h.1, h.2⟩
  | _ => exact h

/-- The request that a turn is about. -/
def Turn.about {ρ : Type} (t : Turn ρ) : Option Nat :=
  match t.signal with
  | .call r | .caller r | .slot r | .outcome r | .work r => some r
  | .worker a => (t.engine.lanes.takeOrRetire a).1
  | .close _ | .drained _ => none

namespace Engine
variable {ρ : Type} {sent : List Nat} {e e' e'' : Engine ρ} {about : Option Nat} {r : Nat}
  {q : Request ρ} {a : AggregateId} {o : Ending ρ}

/-- Nobody shuts the pool down. -/
structure Undisturbed (e : Engine ρ) (sent : List Nat) : Prop where
  isOpen : e.pool.closing = false
  goes : e.pool.cancelled = false
  mild : ∀ d ∈ e.agenda, d.IsMild sent

theorem Undisturbed.more {sent' : List Nat} (h : e.Undisturbed sent) (more : sent ⊆ sent') :
    e.Undisturbed sent' :=
  ⟨h.isOpen, h.goes, fun d hd => (h.mild d hd).more more⟩

/-- Every request goes through a lane to the pool. -/
def Laned (e : Engine ρ) : Prop := ∀ r q, e.request? r = some q → ∃ a, q.route = .laneThenPool a

theorem Laned.modify (laned : e.Laned) (r : Nat) {f : Request ρ → Request ρ}
    (keeps : ∀ q, (f q).route = q.route) : (e.modify r f).Laned := by
  intro r' q hq
  rw [request?_modify] at hq
  split at hq
  · obtain ⟨q₀, hq₀, rfl⟩ := Option.map_eq_some_iff.1 hq
    rw [keeps]
    exact laned r' q₀ hq₀
  · exact laned r' q hq

/-- Something happens to one request at most, and what becomes due is mild. -/
structure Touches (sent : List Nat) (about : Option Nat) (e e' : Engine ρ) : Prop where
  now : e'.now = e.now
  closing : e'.pool.closing = e.pool.closing
  cancelled : e'.pool.cancelled = e.pool.cancelled
  others : ∀ r, about ≠ some r → e'.request? r = e.request? r
  agenda : Agenda.Grown (Due.IsMild sent) e.agenda e'.agenda

namespace Touches

theorem refl (e : Engine ρ) : Touches sent about e e := ⟨rfl, rfl, rfl, fun _ _ => rfl, .refl⟩

theorem trans (h : Touches sent about e e') (h' : Touches sent about e' e'') :
    Touches sent about e e'' where
  now := h'.now.trans h.now
  closing := h'.closing.trans h.closing
  cancelled := h'.cancelled.trans h.cancelled
  others r hr := (h'.others r hr).trans (h.others r hr)
  agenda := h.agenda.trans h'.agenda

theorem undisturbed (h : Touches sent about e e') (old : e.Undisturbed sent) :
    e'.Undisturbed sent where
  isOpen := h.closing.trans old.isOpen
  goes := h.cancelled.trans old.goes
  mild := h.agenda.all old.mild

theorem dueAt (h : Touches sent about e e') {s : Signal} {t : Nat} (due : e.DueAt s t) :
    e'.DueAt s t := by
  obtain ⟨d, hd, hs, ht⟩ := due
  exact ⟨d, h.agenda.mem hd, hs, ht⟩

end Touches

section Links
variable (e)

theorem touches_modify (r : Nat) (f : Request ρ → Request ρ) :
    Touches sent (some r) e (e.modify r f) where
  now := rfl
  closing := rfl
  cancelled := rfl
  others r' hr := by rw [request?_modify, if_neg fun same => hr (congrArg some same)]
  agenda := .refl

theorem touches_schedule (t : Nat) (rank : Rank) {s : Signal}
    (mild : Due.IsMild sent ⟨t, rank, s⟩) : Touches sent about e (e.schedule t rank s) :=
  ⟨rfl, rfl, rfl, fun _ _ => rfl, .push .refl mild⟩

theorem touches_wake (rank : Rank) {s : Signal} (mild : Due.IsMild sent ⟨e.now, rank, s⟩) :
    Touches sent about e (e.wake rank s) :=
  e.touches_schedule e.now rank mild

theorem touches_aside (lanes : Lanes) {w : World} {p : Pool} (now : w.now = e.now)
    (closing : p.closing = e.pool.closing) (cancelled : p.cancelled = e.pool.cancelled) :
    Touches sent about e { e with lanes, world := w, pool := p } :=
  ⟨now, closing, cancelled, fun _ _ => rfl, .refl⟩

theorem touches_pool {p : Pool} (closing : p.closing = e.pool.closing)
    (cancelled : p.cancelled = e.pool.cancelled) : Touches sent about e { e with pool := p } :=
  e.touches_aside e.lanes rfl closing cancelled

theorem touches_count (m : Metric) : Touches sent about e (e.count m) :=
  e.touches_aside e.lanes rfl rfl rfl

theorem touches_gaugeLanes : Touches sent about e e.gaugeLanes :=
  e.touches_aside e.lanes rfl rfl rfl

theorem touches_finishJob (r : Nat) (q : Request ρ) (a : AggregateId) (o : Ending ρ) :
    Touches sent (some r) e (e.finishJob r q a o) := by
  have closed : Touches sent (some r) e (e.modify r fun q => q.close o) := e.touches_modify r _
  have freed := closed.trans (touches_aside _ (e.lanes.finish a) rfl rfl rfl)
  have woken := freed.trans (touches_wake _ (.notice q.foreground) (s := .caller r) trivial)
  exact woken.trans (touches_wake _ .immediate (s := .worker a) trivial)

theorem touches_leavePool (r : Nat) (o : Ending ρ) : Touches sent (some r) e (e.leavePool r o) := by
  rw [leavePool]
  split
  · exact .refl e
  · split
    · split
      · split
        · exact e.touches_finishJob r _ _ o
        · exact e.touches_modify r _
      · exact e.touches_finishJob r _ _ o
    · exact (e.touches_modify r _).trans (touches_modify _ r _)

theorem touches_cancel (r : Nat) : Touches sent (some r) e (e.cancel r) := by
  rw [cancel]
  split
  · exact .refl e
  · have asked : Touches sent (some r) e (e.modify r fun q => { q with cancelled := true }) :=
      e.touches_modify r _
    dsimp only
    split
    · exact asked.trans (touches_wake _ .background (s := .work r) trivial)
    · exact asked

theorem touches_expire (r l : Nat) : Touches sent (some r) e (e.expire r l) :=
  (e.touches_count .poolTimeouts).trans (touches_leavePool _ r _)

theorem touches_enterLane (r : Nat) (a : AggregateId) :
    Touches sent about e (e.enterLane r a) := by
  rw [enterLane]
  have put : Touches sent about e { e with lanes := (e.lanes.submit a r).2 } :=
    e.touches_aside _ rfl rfl rfl
  dsimp only
  split
  · exact (put.trans (touches_gaugeLanes _)).trans
      (touches_wake _ .background (s := .worker a) trivial)
  · exact put

theorem touches_onCaller (r : Nat) : Touches sent (some r) e (e.onCaller r) := by
  rw [onCaller]
  split
  · exact .refl e
  · split
    · exact .refl e
    · split
      · exact e.touches_modify r _
      · split
        · exact e.touches_modify r _
        · exact .refl e

theorem touches_onOutcome (r : Nat) : Touches sent (some r) e (e.onOutcome r) := by
  rw [onOutcome]
  split
  · exact .refl e
  · split
    · exact e.touches_leavePool r _
    · split
      · exact (e.touches_cancel r).trans (touches_expire _ r _)
      · exact .refl e
    · split
      · exact e.touches_finishJob r _ _ _
      · exact .refl e
    · exact .refl e

end Links

theorem Request.poolInFront_of_route (route : q.route = .laneThenPool a) :
    q.poolInFront = false := by
  simp [Request.poolInFront, route]

section Called
variable (called : r ∈ sent) (route : q.route = .laneThenPool a)
include called route

theorem mild_outcome (t : Nat) : Due.IsMild sent ⟨t, .deadline q.poolInFront, .outcome r⟩ :=
  ⟨called, by rw [Request.poolInFront_of_route route]; rfl⟩

theorem touches_tellCaller (e : Engine ρ) : Touches sent about e (e.tellCaller r q) := by
  rw [tellCaller]
  split
  · refine e.touches_wake _ ⟨called, ?_⟩
    rw [Request.poolInFront_of_route route]
    rfl
  · exact .refl e

omit route in
theorem touches_tellLane (e : Engine ρ) (q : Request ρ) :
    Touches sent about e (e.tellLane r q) := by
  rw [tellLane]
  split
  · exact e.touches_wake _ ⟨called, rfl⟩
  · exact .refl e

theorem touches_startWork (e : Engine ρ) : Touches sent (some r) e (e.startWork r q) := by
  let placed : Engine ρ :=
    e.modify r fun q => { q with stage := .running, cancelled := e.pool.cancelled }
  have places : Touches sent (some r) e placed := e.touches_modify r _
  have started := places.trans (placed.touches_wake .background (s := .work r) trivial)
  rw [startWork]
  split
  · exact started.trans ((touches_cancel _ r).trans (touches_expire _ r _))
  · split
    · exact started.trans (touches_schedule _ _ _ (mild_outcome called route _))
    · exact started

theorem touches_enterPool (hq : e.request? r = some q) (l : Nat) :
    Touches sent (some r) e (e.enterPool r l) := by
  let noted : Engine ρ := e.modify r fun q => { q with poolLimit := l }
  have notes : Touches sent (some r) e noted := e.touches_modify r _
  have comes {x : Pool.Admission} {p : Pool} (arrives : e.pool.arrive r = (x, p)) :
      Touches sent (some r) e { noted with pool := p } := by
    obtain ⟨closing, cancelled⟩ := Pool.arrive_keeps arrives
    exact notes.trans (noted.touches_pool closing cancelled)
  rw [enterPool]
  simp only [request?_modify_self hq]
  split
  · exact notes.trans (noted.touches_leavePool r _)
  · rename_i p arrives
    exact (comes arrives).trans
      (touches_startWork (q := { q with poolLimit := l }) called route { noted with pool := p })
  · rename_i p arrives
    split
    · exact notes.trans (noted.touches_expire r l)
    · have queued := (comes arrives).trans
        (touches_modify { noted with pool := p } r fun q => { q with stage := .waiting })
      split
      · refine queued.trans (touches_schedule _ _ _ (s := .slot r) ⟨called, ?_⟩)
        rw [Request.poolInFront_of_route (q := { q with poolLimit := l }) route]
        rfl
      · exact queued

theorem touches_startJob (hq : e.request? r = some q) :
    Touches sent (some r) e (e.startJob r) := by
  rw [startJob]
  simp only [hq, route]
  split
  · exact e.touches_finishJob r q a _
  · exact touches_enterPool called route hq _

omit called in
theorem touches_onCall (hq : e.request? r = some q) : Touches sent (some r) e (e.onCall r) := by
  let noted : Engine ρ := e.modify r fun q => { q with called := e.now }
  have notes : Touches sent (some r) e noted := e.touches_modify r _
  have entered := notes.trans (noted.touches_enterLane r a)
  rw [onCall]
  simp only [request?_modify_self hq, route]
  split
  · exact entered.trans (touches_modify _ r _)
  · split
    · exact entered.trans (touches_schedule _ _ _ (s := .caller r) trivial)
    · exact entered

end Called

/-- A slot that becomes free is handed to somebody who has called. -/
theorem touches_passSlot {p : Pool} (laned : e.Laned) (line : ∀ c ∈ p.line, c ∈ sent)
    (closing : p.closing = e.pool.closing) (cancelled : p.cancelled = e.pool.cancelled) :
    Touches sent about e (e.passSlot p.handOver) := by
  rw [passSlot, Pool.handOver]
  cases hl : p.line with
  | nil => exact e.touches_pool closing cancelled
  | cons c rest =>
      have handed : Touches sent about e
          { e with pool := { p with line := rest, handed := p.handed ++ [c] } } :=
        e.touches_pool closing cancelled
      dsimp only
      split
      · rename_i q hq
        obtain ⟨a, route⟩ := laned c q hq
        refine handed.trans (touches_wake _ _ ⟨line c (by rw [hl]; exact List.mem_cons_self), ?_⟩)
        rw [Request.poolInFront_of_route route]
        rfl
      · exact handed

section Disturbing
variable (laned : e.Laned) (line : ∀ c ∈ e.pool.line, c ∈ sent)
  (isOpen : e.pool.closing = false)
include laned line isOpen

theorem touches_endWork (called : r ∈ sent) {q' : Request ρ} (route : q'.route = .laneThenPool a)
    (o : Ending ρ) : Touches sent (some r) e (e.endWork r q' o) := by
  let ended : Engine ρ := e.modify r fun q => { q with work := .ended o }
  let replied : Engine ρ := ended.tellLane r q'
  have tells : Touches sent (some r) e replied :=
    (e.touches_modify r _).trans (touches_tellLane called ended q')
  have same : replied.requests = ended.requests ∧ replied.pool = e.pool := by
    simp only [replied, tellLane]
    split <;> exact ⟨rfl, rfl⟩
  let freed : Pool := { e.pool with running := e.pool.running.erase r }
  have passes : Touches sent (some r) replied (replied.passSlot freed.handOver) := by
    refine touches_passSlot (fun r' q hq => ?_) line ?_ ?_
    · have stay : ended.Laned := laned.modify r fun _ => rfl
      exact stay r' q ((congrArg (·[r']?) same.1).symm.trans hq)
    · rw [same.2]
    · rw [same.2]
  have passed := tells.trans passes
  have stays : (replied.passSlot freed.handOver).noticeEmpty = replied.passSlot freed.handOver := by
    rw [noticeEmpty, if_neg]
    rw [passed.closing, isOpen]
    simp
  rw [endWork]
  simp only [route]
  change Touches sent (some r) e
    ((replied.passSlot (replied.pool.release r)).noticeEmpty.tellCaller r q')
  rw [same.2, Pool.release, stays]
  exact passed.trans (touches_tellCaller called route _)

theorem touches_runWork (called : r ∈ sent) {q' : Request ρ} (route : q'.route = .laneThenPool a)
    (x : Activity ρ) : Touches sent (some r) e (e.runWork r q' x) := by
  let ran : Engine ρ := { e with world := (x.advance q'.cancelled e.world).1 }
  have runs : Touches sent (some r) e ran :=
    e.touches_aside e.lanes (x.advance_now q'.cancelled e.world) rfl rfl
  rw [runWork]
  dsimp only
  split
  · exact runs.trans (touches_endWork (e := ran) laned line isOpen called route _)
  · exact runs.trans (touches_endWork (e := ran) laned line isOpen called route _)
  · rename_i ms wakeable rest _
    have slept := runs.trans (ran.touches_modify r
      fun q => { q with work := .asleep (ran.now + ms) wakeable rest })
    exact slept.trans (touches_schedule _ _ .background (s := .work r) trivial)

theorem touches_onWork (called : r ∈ sent) : Touches sent (some r) e (e.onWork r) := by
  rw [onWork]
  split
  · exact .refl e
  · rename_i q hq
    obtain ⟨a, route⟩ := laned r q hq
    split
    · exact .refl e
    · rename_i x _
      split
      · exact touches_endWork laned line isOpen called route _
      · let begins : Engine ρ := e.modify r fun q => { q with begun := some e.now }
        have begun : Touches sent (some r) e begins := e.touches_modify r _
        have stay : begins.Laned := laned.modify r fun _ => rfl
        exact begun.trans (touches_runWork stay line isOpen called route x)
    · split
      · exact touches_runWork laned line isOpen called route _
      · split
        · exact touches_runWork laned line isOpen called route _
        · exact .refl e

omit line in
theorem touches_onSlot (called : r ∈ sent) : Touches sent (some r) e (e.onSlot r) := by
  rw [onSlot]
  split
  · exact .refl e
  · rename_i q hq
    obtain ⟨a, route⟩ := laned r q hq
    split
    · rw [isOpen, if_neg Bool.false_ne_true]
      split
      · have took : Touches sent (some r) e { e with pool := e.pool.take r } :=
          e.touches_pool rfl rfl
        exact took.trans (touches_startWork called route _)
      · split
        · have left : Touches sent (some r) e { e with pool := e.pool.leave r } :=
            e.touches_pool rfl rfl
          exact left.trans (touches_expire _ r _)
        · exact .refl e
    · exact .refl e

end Disturbing

end Engine

namespace CommandEngine
open Engine
variable {S ε : Type} {m : CommandEngine S ε} {calls : Nat → CommandCall} {sent : List Nat}
  {t : Turn (CommandResult S ε)}

/-- Work that is due belongs to a request that has been called. -/
theorem Facing.sent_of_work (h : m.Facing calls sent t) {r : Nat} (hs : t.signal = .work r)
    {q : Request (CommandResult S ε)} (hq : t.engine.request? r = some q) : r ∈ sent := by
  by_contra unsent
  have pending := h.order.unsent r q hq unsent
  have fresh := (h.order.fits r q hq).early (.inl pending)
  obtain running | ⟨o, overran⟩ := h.fit.work r hs q hq fresh
  · simp [pending] at running
  · simp [pending] at overran

/-- A turn deals with the request that it is about. -/
theorem Facing.touches (h : m.Facing calls sent t) (calm : t.engine.Undisturbed sent)
    (mild : Due.IsMild sent ⟨t.time, .background, t.signal⟩) :
    Touches (sent ++ t.signal.submits) t.about t.engine t.after := by
  have laned : t.engine.Laned := fun r q hq => ⟨_, h.order.routes r q hq⟩
  have line : ∀ c ∈ t.engine.pool.line, c ∈ sent := by
    intro c hc
    by_contra unsent
    obtain ⟨q, hq, waiting⟩ :=
      Option.map_eq_some_iff.1 (h.tame.seated.waits c (List.mem_append_left _ hc))
    simp [h.order.unsent c q hq unsent] at waiting
  have nothing {about : Option Nat} {e e' : Engine (CommandResult S ε)}
      (h : Touches sent about e e') : Touches (sent ++ []) about e e' := by
    rw [List.append_nil]
    exact h
  obtain ⟨e, s⟩ := t
  rw [Turn.after]
  cases s with
  | call r =>
      obtain ⟨q, hq⟩ := Option.isSome_iff_exists.1 (h.fit.call r rfl).2.1
      exact touches_onCall (h.order.routes r q hq) hq
  | caller r => exact e.touches_onCaller r
  | outcome r => exact e.touches_onOutcome r
  | slot r => exact nothing (touches_onSlot laned calm.isOpen mild.1)
  | work r =>
      refine nothing ?_
      cases hq : e.request? r with
      | none =>
          change Touches sent _ e (e.onWork r)
          rw [onWork, hq]
          exact .refl e
      | some q => exact touches_onWork laned line calm.isOpen (h.sent_of_work rfl hq)
  | worker a =>
      change Touches (sent ++ []) (e.lanes.takeOrRetire a).1 e (e.onWorker a)
      refine nothing ?_
      rw [onWorker]
      obtain ⟨r, lanes, took, order, _, doing, _⟩ | ⟨lanes, gone, _⟩ := h.order.takeOrRetire
      · rw [took]
        obtain ⟨q, hq⟩ := doing.request order
        have moved : Touches sent (some r) e { e with lanes } := e.touches_aside lanes rfl rfl rfl
        exact moved.trans (touches_startJob doing.sent (order.routes r q hq) hq)
      · rw [gone]
        have moved : Touches sent none e { e with lanes } := e.touches_aside lanes rfl rfl rfl
        exact moved.trans (touches_gaugeLanes _)
  | close | drained => exact absurd mild id

end CommandEngine
end EventSourcing
