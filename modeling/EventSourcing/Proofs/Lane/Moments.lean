import EventSourcing.Proofs.Engine.Passing
import EventSourcing.Proofs.Lane.Turns

/-!
When things happen to jobs.
A turn takes no time. Where a job begins or its caller is told, the moment is noted; what becomes due
is due at once, but for work that sleeps, which is due when it wakes.
-/
namespace EventSourcing

namespace LaneTraffic
open Engine
variable {ρ : Type} {lane : Nat → AggregateId} {e e' e'' : Engine ρ} {sent : List Nat} {r : Nat}
  {p q q' q'' : Request ρ} {a : AggregateId} {s : Signal}

/-- The times of a job after something has happened to it at a moment. -/
structure Noted (now : Nat) (q q' : Request ρ) : Prop where
  begun : q'.begun = q.begun ∨ q.begun = none ∧ q'.begun = some now
  answer : q'.answer = q.answer ∨ q.answer = none ∧ ∃ o, q'.answer = some (now, o)

/-- Sleeping work of a job is due when it wakes. -/
def Rouses (e : Engine ρ) (r : Nat) (q : Request ρ) : Prop :=
  ∀ wake wakeable rest, q.work = .asleep wake wakeable rest → e.DueAt (.work r) wake

/-- What happens at one moment. -/
structure Moment (e e' : Engine ρ) : Prop where
  now : e'.now = e.now
  sorted : e.Sorted → e'.Sorted
  stays : ∀ s τ, e.DueAt s τ → e'.DueAt s τ
  later : ∀ s τ, e'.DueAt s τ → e.DueAt s τ ∨ e.now ≤ τ ∧ ((∀ r, s ≠ .work r) → τ = e.now)
  lasts : ∀ r, (e.request? r).isSome → (e'.request? r).isSome
  was : ∀ r q', e'.request? r = some q' → ∃ q, e.request? r = some q ∧ Noted e.now q q' ∧
    (q'.work = q.work ∨ Rouses e' r q')

theorem Noted.refl (now : Nat) (q : Request ρ) : Noted now q q := ⟨.inl rfl, .inl rfl⟩

theorem Noted.trans {now : Nat} (h : Noted now q q') (h' : Noted now q' q'') : Noted now q q'' where
  begun := by
    obtain same | ⟨idle, began⟩ := h'.begun
    · rw [same]
      exact h.begun
    · obtain same | ⟨_, before⟩ := h.begun
      · exact .inr ⟨same ▸ idle, began⟩
      · cases idle.symm.trans before
  answer := by
    obtain same | ⟨silent, replied⟩ := h'.answer
    · rw [same]
      exact h.answer
    · obtain same | ⟨_, _, before⟩ := h.answer
      · exact .inr ⟨same ▸ silent, replied⟩
      · cases silent.symm.trans before

/-- Nothing that matters here has changed. -/
theorem moment_of_eq (requests : e'.requests = e.requests) (agenda : e'.agenda = e.agenda)
    (now : e'.now = e.now) : Moment e e' where
  now := now
  sorted sorted := by
    rw [Sorted, agenda]
    exact sorted
  stays s τ due := by
    rw [DueAt, agenda]
    exact due
  later s τ due := by
    rw [DueAt, agenda] at due
    exact .inl due
  lasts r made := by
    rw [request?, requests]
    exact made
  was r q' hq' := ⟨q', (congrArg (·[r]?) requests).symm.trans hq', .refl _ q', .inl rfl⟩

theorem Moment.trans (h : Moment e e') (h' : Moment e' e'') : Moment e e'' where
  now := h'.now.trans h.now
  sorted sorted := h'.sorted (h.sorted sorted)
  stays s τ due := h'.stays s τ (h.stays s τ due)
  later s τ due := by
    obtain old | new := h'.later s τ due
    · exact h.later s τ old
    · rw [h.now] at new
      exact .inr new
  lasts r made := h'.lasts r (h.lasts r made)
  was r q'' hq'' := by
    obtain ⟨q', hq', noted', work'⟩ := h'.was r q'' hq''
    obtain ⟨q, hq, noted, work⟩ := h.was r q' hq'
    rw [h.now] at noted'
    refine ⟨q, hq, noted.trans noted', ?_⟩
    obtain same | rouses := work'
    · rw [Rouses, same]
      exact work.imp_right fun rouses wake wakeable rest asleep =>
        h'.stays _ _ (rouses wake wakeable rest asleep)
    · exact .inr rouses

theorem Moment.becomes (h : Moment e e') (hq : e.request? r = some q) :
    ∃ q', e'.request? r = some q' ∧ Noted e.now q q' := by
  obtain ⟨q', hq'⟩ := Option.isSome_iff_exists.1 (h.lasts r (by rw [hq]; rfl))
  obtain ⟨q₁, hq₁, noted, _⟩ := h.was r q' hq'
  cases hq.symm.trans hq₁
  exact ⟨q', hq', noted⟩

section Links

theorem moment_schedule (e : Engine ρ) {time : Nat} (later : e.now ≤ time) (rank : Rank)
    (atOnce : (∀ r, s ≠ .work r) → time = e.now) : Moment e (e.schedule time rank s) where
  now := rfl
  sorted sorted := sorted.schedule ..
  stays _ _ due := dueAt_schedule.2 (.inr due)
  later _ _ due := by
    obtain ⟨rfl, rfl⟩ | old := dueAt_schedule.1 due
    · exact .inr ⟨later, atOnce⟩
    · exact .inl old
  lasts _ := id
  was _ q' hq' := ⟨q', hq', .refl _ q', .inl rfl⟩

theorem moment_wake (e : Engine ρ) (rank : Rank) (s : Signal) : Moment e (e.wake rank s) :=
  moment_schedule e (Nat.le_refl _) rank fun _ => rfl

variable (hq : e.request? r = some q)
include hq

theorem moment_modify (f : Request ρ → Request ρ) (noted : Noted e.now q (f q))
    (work : (f q).work = q.work ∨ Rouses e r (f q)) : Moment e (e.modify r f) where
  now := rfl
  sorted := id
  stays _ _ := id
  later _ _ := .inl
  lasts r' made := by
    rw [request?_modify_isSome]
    exact made
  was r' q' hq' := by
    rw [request?_modify] at hq'
    split at hq'
    · rename_i same
      subst same
      rw [hq, Option.map_some, Option.some.injEq] at hq'
      subst hq'
      exact ⟨q, hq, noted, work⟩
    · exact ⟨q', hq', .refl _ q', .inl rfl⟩

/-- A job ends. -/
theorem moment_endWork (route : p.route = .lane a) (o : Ending ρ) :
    Moment e (e.endWork r p o) := by
  rw [endWork_eq route, stopped]
  refine Moment.trans ?_ (moment_wake ..)
  refine Moment.trans ?_ (moment_wake ..)
  refine Moment.trans (moment_modify hq (fun q =>
    { q with work := .ended o, stage := .over, result := some o }) ⟨.inl rfl, .inl rfl⟩ ?_)
    (moment_of_eq rfl rfl rfl)
  exact .inr fun _ _ _ asleep => by cases asleep

/-- A job goes to sleep. -/
theorem moment_asleep {wake : Nat} (later : e.now ≤ wake) (wakeable : Bool)
    (rest : Bool → Activity ρ) :
    Moment e ((e.modify r fun q => { q with work := .asleep wake wakeable rest }).schedule wake
      .background (.work r)) := by
  have due : Moment e (e.schedule wake .background (.work r)) :=
    moment_schedule e later _ fun never => absurd rfl (never r)
  refine due.trans (moment_modify (e := e.schedule wake .background (.work r)) hq (fun q =>
    { q with work := .asleep wake wakeable rest }) ⟨.inl rfl, .inl rfl⟩ (.inr ?_))
  rintro _ _ _ asleep
  cases asleep
  exact dueAt_schedule.2 (.inl ⟨rfl, rfl⟩)

/-- The work of a job runs up to its end or its next wait. -/
theorem moment_runWork (route : p.route = .lane a) (x : Activity ρ) :
    Moment e (e.runWork r p x) ∧
      ∀ q', (e.runWork r p x).request? r = some q' → Rouses (e.runWork r p x) r q' := by
  have now : (x.advance p.cancelled e.world).1.now = e.now := x.advance_now ..
  rw [runWork]
  cases hadv : x.advance p.cancelled e.world with
  | mk w pause =>
      rw [hadv] at now
      have aside : Moment e { e with world := w } := moment_of_eq rfl rfl now
      have ends (o : Ending ρ) : Moment e (({ e with world := w } : Engine ρ).endWork r p o) ∧
          ∀ q', (({ e with world := w } : Engine ρ).endWork r p o).request? r = some q' →
            Rouses (({ e with world := w } : Engine ρ).endWork r p o) r q' := by
        refine ⟨aside.trans (moment_endWork (e := { e with world := w }) hq route o), ?_⟩
        intro q' hq' wake wakeable rest asleep
        rw [endWork_eq route] at hq'
        have here : some _ = some q' := (request?_modify_self hq _).symm.trans hq'
        cases here
        cases asleep
      cases pause with
      | finished y => exact ends _
      | panicked => exact ends _
      | asleep ms wakeable rest =>
          refine ⟨aside.trans (moment_asleep (e := { e with world := w }) hq
            (Nat.le_add_right ..) wakeable rest), fun q' hq' wake wakeable rest asleep => ?_⟩
          have here : some _ = some q' := (request?_modify_self hq _).symm.trans hq'
          cases here
          cases asleep
          exact dueAt_schedule.2 (.inl ⟨rfl, rfl⟩)

/-- A job begins. -/
theorem moment_startJob {x : Activity ρ} (route : q.route = .lane a) (work : q.work = .fresh x)
    (idle : q.begun = none) : Moment e (e.startJob r) := by
  let f (q : Request ρ) : Request ρ := { q with stage := .running, begun := some e.now }
  have begun : Moment e (e.modify r f) := moment_modify hq f ⟨.inr ⟨idle, rfl⟩, .inl rfl⟩ (.inl rfl)
  rw [startJob_eq hq route work]
  exact begun.trans (moment_runWork (p := { q with stage := .running })
    (request?_modify_self hq f) route x).1

end Links

/-- A turn takes no time, and all that it makes due is due at once, but for work that sleeps. -/
theorem Orderly.moment (h : Orderly lane e sent (some s)) (meets : Meets e sent s) :
    Moment e (e.handle s) := by
  cases s with
  | slot | outcome | drained => cases meets.laning
  | call r =>
      obtain ⟨_, made, _⟩ := meets.calls r rfl
      obtain ⟨q, hq⟩ := Option.isSome_iff_exists.1 made
      have called : Moment e (e.modify r fun q => { q with called := e.now }) :=
        moment_modify hq (fun q => { q with called := e.now }) ⟨.inl rfl, .inl rfl⟩ (.inl rfl)
      rw [Engine.handle, onCall_eq hq (h.routes r q hq).1]
      cases hs : e.lanes.submit (lane r) r with
      | mk isNew lanes =>
          rw [enterLane_eq (e := e.modify r _) hs]
          refine called.trans ?_
          split
          · refine Moment.trans ?_ (moment_wake ..)
            exact moment_of_eq rfl rfl rfl
          · exact moment_of_eq rfl rfl rfl
  | caller r =>
      rw [Engine.handle, onCaller]
      cases hq : e.request? r with
      | none => exact moment_of_eq rfl rfl rfl
      | some q =>
          have replied (o : Ending ρ) (silent : q.answer = none) : Moment e (e.tell r o) :=
            moment_modify hq (fun q => { q with answer := some (e.now, o) })
              ⟨.inl rfl, .inr ⟨silent, o, rfl⟩⟩ (.inl rfl)
          dsimp only
          split
          · exact moment_of_eq rfl rfl rfl
          · rename_i silent
            rw [Option.not_isSome_iff_eq_none] at silent
            split
            · exact replied _ silent
            · split
              · exact replied _ silent
              · exact moment_of_eq rfl rfl rfl
  | worker a =>
      rw [Engine.handle, onWorker]
      obtain ⟨r, rest, x, front, takes, _, _⟩ | ⟨_, retires⟩ := h.takeOrRetire
      · rw [takes]
        obtain ⟨_, q, y, hq, work, idle⟩ := h.front front
        refine Moment.trans ?_ (moment_startJob (e := { e with lanes := ⟨e.lanes.table.put a x⟩ })
          hq (h.routes r q hq).1 work idle)
        exact moment_of_eq rfl rfl rfl
      · rw [retires]
        exact moment_of_eq rfl rfl rfl
  | work r =>
      rw [Engine.handle]
      cases hq : e.request? r with
      | none =>
          rw [onWork, hq]
          exact moment_of_eq rfl rfl rfl
      | some q =>
          obtain ⟨_, wake, wakeable, rest, work, now⟩ := h.sleeps meets hq
          obtain ⟨route, unasked⟩ := h.routes r q hq
          rw [onWork_eq hq unasked work now]
          exact (moment_runWork hq route (rest false)).1
  | close d =>
      obtain ⟨ds, hds⟩ := onClose_eq h.idle d
      rw [Engine.handle, hds]
      exact moment_of_eq rfl rfl rfl

/-- Work that has gone on and sleeps again is due when it wakes. -/
theorem Orderly.rouses (h : Orderly lane e sent (some (.work r))) (meets : Meets e sent (.work r))
    (hq' : (e.handle (.work r)).request? r = some q') : Rouses (e.handle (.work r)) r q' := by
  rw [Engine.handle] at hq' ⊢
  cases hq : e.request? r with
  | none =>
      rw [onWork, hq] at hq'
      cases hq.symm.trans hq'
  | some q =>
      obtain ⟨_, wake, wakeable, rest, work, now⟩ := h.sleeps meets hq
      obtain ⟨route, unasked⟩ := h.routes r q hq
      rw [onWork_eq hq unasked work now] at hq' ⊢
      exact (moment_runWork hq route (rest false)).2 q' hq'

/-- Whatever is due is due now, but for work that sleeps, and sleeping work is due when it wakes. -/
structure Punctual (e : Engine ρ) (due : Signal → Nat → Prop) : Prop where
  ahead : ∀ s τ, due s τ → e.now ≤ τ
  atOnce : ∀ s τ, due s τ → (∀ r, s ≠ .work r) → τ = e.now
  rouses : ∀ r q wake wakeable rest, e.request? r = some q →
    q.work = .asleep wake wakeable rest → due (.work r) wake

theorem punctual_ofWorld (w : World) (c : PoolConfig) :
    Punctual (ofWorld (ρ := ρ) w c) (ofWorld (ρ := ρ) w c).DueAt where
  ahead s τ due := by
    obtain ⟨_, hd, _⟩ := due
    cases hd
  atOnce s τ due := by
    obtain ⟨_, hd, _⟩ := due
    cases hd
  rouses r q wake wakeable rest hq := by cases hq

theorem Punctual.passes {due : Signal → Nat → Prop} (h : Punctual e e.DueAt)
    (passes : Passes e e' due) : Punctual e' due where
  ahead s τ hdue := by
    obtain old | new := passes.later s τ hdue
    · have onTime := passes.onTime s τ old
      have ahead := h.ahead s τ old
      omega
    · exact new
  atOnce s τ hdue others := by
    obtain old | ⟨now, _⟩ := passes.asked s τ hdue
    · have now := h.atOnce s τ old others
      rw [now] at old
      exact now.trans (passes.now_eq old).symm
    · exact now.symm
  rouses r q wake wakeable rest hq asleep := by
    obtain old | ⟨_, _, _, _, rfl⟩ := passes.new r q hq
    · exact passes.stays _ _ (h.rouses r q wake wakeable rest old asleep)
    · cases asleep

theorem Punctual.turn {t : Turn ρ} (h : Punctual t.engine t.DueAt)
    (order : Orderly lane t.engine sent (some t.signal)) (meets : Meets t.engine sent t.signal) :
    Punctual t.after t.after.DueAt := by
  have moment : Moment t.engine t.after := order.moment meets
  refine ⟨fun s τ due => ?_, fun s τ due others => ?_, fun r q' wake wakeable rest hq' asleep => ?_⟩
  · rw [moment.now]
    obtain old | ⟨later, _⟩ := moment.later s τ due
    · exact h.ahead s τ (.inr old)
    · exact later
  · rw [moment.now]
    obtain old | ⟨_, atOnce⟩ := moment.later s τ due
    · exact h.atOnce s τ (.inr old) others
    · exact atOnce others
  · by_cases hs : t.signal = .work r
    · rw [Turn.after, hs] at hq' ⊢
      rw [hs] at order meets
      exact order.rouses meets hq' wake wakeable rest asleep
    · obtain ⟨q, hq, _, same | rouses⟩ := moment.was r q' hq'
      · rw [same] at asleep
        obtain ⟨here, _⟩ | due := h.rouses r q wake wakeable rest hq asleep
        · exact absurd here hs
        · exact moment.stays _ _ due
      · exact rouses wake wakeable rest asleep

end LaneTraffic
end EventSourcing
