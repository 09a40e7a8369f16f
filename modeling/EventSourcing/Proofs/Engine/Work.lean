import EventSourcing.Proofs.Engine.Steps

/-!
Work that goes on.
When the work of a request is due it either has nothing to do, or is dropped before it begins, or
runs up to its end or its next wait. Only in this way do works and logs change.
-/
namespace EventSourcing

/-- What becomes of work that has run as far as it can. -/
def Activity.Pause.work {ρ : Type} (now : Nat) : Activity.Pause ρ → Work ρ
  | .finished x => .ended (.ok x)
  | .panicked => .ended (.error (.pool .panicked))
  | .asleep ms wakeable rest => .asleep (now + ms) wakeable rest

namespace Request
variable {ρ : Type} {q : Request ρ} {due due' : Prop}

/-- What a request has to run at a moment. -/
def next? (q : Request ρ) (now : Nat) : Option (Activity ρ) :=
  match q.work with
  | .ended _ => none
  | .fresh x => if q.cancelled then none else some x
  | .asleep wake wakeable rest =>
    if wakeable && q.cancelled then some (rest true)
    else if wake ≤ now then some (rest false)
    else none

theorem next?_eq_some {now : Nat} {x : Activity ρ} (h : q.next? now = some x) :
    q.work = .fresh x ∨
      ∃ wake wakeable rest b, q.work = .asleep wake wakeable rest ∧ x = rest b := by
  rw [next?] at h
  cases hw : q.work with
  | ended o => simp [hw] at h
  | fresh y =>
      simp only [hw] at h
      split at h
      · cases h
      · exact .inl (congrArg _ (Option.some.inj h))
  | asleep wake wakeable rest =>
      simp only [hw] at h
      split at h
      · exact .inr ⟨wake, wakeable, rest, true, rfl, (Option.some.inj h).symm⟩
      · split at h
        · exact .inr ⟨wake, wakeable, rest, false, rfl, (Option.some.inj h).symm⟩
        · cases h

/-- Work that goes on has a place to run. -/
theorem Fits.place (h : q.Fits due) (begun : ¬q.isFresh) (goes : ¬q.hasEnded) :
    q.stage = .running ∨ ∃ o, q.stage = .overrun o := by
  cases hs : q.stage with
  | pending => exact absurd (h.early (.inl hs)) begun
  | waiting => exact absurd (h.early (.inr hs)) begun
  | running => exact .inl rfl
  | overrun o => exact .inr ⟨o, rfl⟩
  | _ => exact absurd (h.stopped hs) (by simp [begun, goes])

theorem Fits.begun_ne_none (h : q.Fits due) (old : ¬q.isFresh) (goes : ¬q.hasEnded) :
    q.begun ≠ none := by
  intro none
  obtain fresh | ⟨p, hp⟩ := h.idle none
  · exact old fresh
  · rw [hasEnded, hp] at goes
    exact goes rfl

theorem MayTell.of_goes {o : Ending ρ} (h : q.MayTell o) (goes : ¬q.hasEnded) :
    ∃ p, o = .error (.pool p) := by
  obtain pool | ended := h
  · exact pool
  · rw [hasEnded, ended] at goes
    exact absurd rfl goes

/-- Work in its place may come to an end or to a wait. -/
theorem Fits.worked (h : q.Fits due) (place : q.stage = .running ∨ ∃ o, q.stage = .overrun o)
    (goes : ¬q.hasEnded) {begun : Option Nat} {work : Work ρ}
    (old : ∀ x, work ≠ .fresh x)
    (idle : begun = none → ∃ p, work = .ended (.error (.pool p)))
    (broken : ∀ f, work = .ended (.error f) → ∃ p, f = .pool p) :
    Fits { q with begun := begun, work := work } due' where
  fresh hf := by
    rw [isFresh] at hf
    cases hw : work with
    | fresh x => exact absurd hw (old x)
    | asleep | ended => simp [hw] at hf
  early hs := by
    have hs : q.stage = .pending ∨ q.stage = .waiting := hs
    obtain place | ⟨o, place⟩ := place
    · simp [place] at hs
    · simp [place] at hs
  ready _ _ := place
  stopped hs := by
    have hs : q.stage = .over := hs
    obtain place | ⟨o, place⟩ := place
    · simp [place] at hs
    · simp [place] at hs
  overrun := h.overrun
  result o ho := .inl ((h.result o ho).of_goes goes)
  answer t o ho := .inl ((h.answer t o ho).of_goes goes)
  idle hb := .inr (idle hb)
  broken := broken

end Request

namespace Engine
variable {ρ : Type} {lane : Nat → AggregateId} {e e' : Engine ρ} {submitted : List Nat}
  {r : Nat} {q : Request ρ} {a : AggregateId}

theorem modify_modify (e : Engine ρ) (r : Nat) (f g : Request ρ → Request ρ) :
    (e.modify r f).modify r g = e.modify r (g ∘ f) := by
  rw [modify, modify, modify, List.modify_modify_eq]

theorem alike_endWork (e : Engine ρ) (r : Nat) (hroute : q.route = .laneThenPool a)
    (o : Ending ρ) :
    Alike (e.modify r fun q => { q with work := .ended o }) (e.endWork r q o) := by
  rw [endWork]
  simp only [hroute]
  exact (alike_tellLane _ r q).trans ((alike_passSlot _ _).trans
    ((alike_noticeEmpty _).trans (alike_tellCaller _ r q)))

theorem alike_runWork (made : (e.request? r).isSome) (hroute : q.route = .laneThenPool a)
    (x : Activity ρ) :
    let ran := x.advance q.cancelled e.world
    Alike ({ e with world := ran.1 }.modify r fun q => { q with work := ran.2.work ran.1.now })
      (e.runWork r q x) := by
  intro ran
  rw [runWork]
  cases hran : ran.2 with
  | finished y =>
      simp only [ran] at hran
      simp only [hran]
      exact alike_endWork _ r hroute _
  | panicked =>
      simp only [ran] at hran
      simp only [hran, breakdown, hroute]
      exact alike_endWork _ r hroute _
  | asleep ms wakeable rest =>
      simp only [ran] at hran
      simp only [hran]
      obtain ⟨q', hq'⟩ := Option.isSome_iff_exists.1 made
      have asleep := request?_modify_self (e := { e with world := ran.1 }) hq' fun q =>
        { q with work := .asleep (ran.1.now + ms) wakeable rest }
      exact alike_schedule_work _ _ _ asleep (by simp [Request.isFresh])

/-- The work of a request is dropped before it has begun. -/
def dropped (e : Engine ρ) (r : Nat) : Engine ρ :=
  e.modify r fun q => { q with work := .ended (.error (.pool .shuttingDown)) }

/-- The work of a request begins or goes on, up to its end or its next wait. -/
def advanced (e : Engine ρ) (r : Nat) (q : Request ρ) (x : Activity ρ) : Engine ρ :=
  let ran := x.advance q.cancelled e.world
  { e with world := ran.1 }.modify r fun q' =>
    { q' with
      begun := if q.isFresh then some e.now else q'.begun
      work := ran.2.work ran.1.now }

theorem onWork_cases (hq : e.request? r = some q) (hroute : q.route = .laneThenPool a) :
    e.onWork r = e ∨
    (q.isFresh ∧ Alike (e.dropped r) (e.onWork r)) ∨
    ∃ x, q.next? e.now = some x ∧ Alike (e.advanced r q x) (e.onWork r) := by
  have made : (e.request? r).isSome := by rw [hq]; rfl
  rw [onWork, Request.next?]
  simp only [hq]
  cases hw : q.work with
  | ended o => exact .inl rfl
  | fresh x =>
      have fresh : q.isFresh = true := by rw [Request.isFresh, hw]
      simp only [hroute]
      cases hc : q.cancelled with
      | true => exact .inr (.inl ⟨fresh, alike_endWork e r hroute _⟩)
      | false =>
          have made : ((e.modify r fun q => { q with begun := some e.now }).request? r).isSome := by
            rw [request?_modify_self hq]
            rfl
          have ran := alike_runWork made hroute x
          rw [hc] at ran
          have both := modify_modify { e with world := (x.advance false e.world).1 } r
            (fun q => { q with begun := some e.now }) fun q =>
              { q with work := (x.advance false e.world).2.work (x.advance false e.world).1.now }
          refine .inr (.inr ⟨x, rfl, ?_⟩)
          simp only [advanced, hc, fresh, if_true]
          exact (congrArg (Alike · _) both).mp ran
  | asleep wake wakeable rest =>
      have old : q.isFresh = false := by rw [Request.isFresh, hw]
      have ran (b : Bool) : Alike (e.advanced r q (rest b)) (e.runWork r q (rest b)) := by
        simp only [advanced, old, Bool.false_eq_true, if_false]
        exact alike_runWork made hroute _
      dsimp only
      split
      · exact .inr (.inr ⟨_, rfl, ran true⟩)
      · split
        · exact .inr (.inr ⟨_, rfl, ran false⟩)
        · exact .inl rfl

/-- What the work of a request has come to, once it has begun. -/
def begunWork? (e : Engine ρ) (r : Nat) : Option (Work ρ) :=
  (e.request? r).bind fun q => q.begun.map fun _ => q.work

/-- What a request has to do that has not begun. -/
def freshWork? (e : Engine ρ) (r : Nat) : Option (Activity ρ) :=
  (e.request? r).bind fun q => match q.work with
    | .fresh x => some x
    | _ => none

/-- No work has begun or gone on, and nothing has happened to the logs. -/
structure Unmoved (e e' : Engine ρ) : Prop where
  begun : ∀ r, e'.begunWork? r = e.begunWork? r
  fresh : ∀ r x, e'.freshWork? r = some x → e.freshWork? r = some x
  world : e.world.Alike e'.world

/-- The work of one request has gone on. -/
structure Moved (e e' : Engine ρ) (r : Nat) (now : World × Work ρ) : Prop where
  begun : e'.begunWork? r = some now.2
  others : ∀ r', r ≠ r' → e'.begunWork? r' = e.begunWork? r'
  fresh : ∀ r x, e'.freshWork? r = some x → e.freshWork? r = some x
  world : now.1.Alike e'.world

theorem begunWork?_of_task (h : (e'.request? r).map Request.task = (e.request? r).map Request.task) :
    e'.begunWork? r = e.begunWork? r := by
  have same := congrArg (Option.bind · fun t => t.2.2.map fun _ => t.2.1) h
  simp only [Option.bind_map] at same
  exact same

theorem freshWork?_of_task (h : (e'.request? r).map Request.task = (e.request? r).map Request.task) :
    e'.freshWork? r = e.freshWork? r := by
  have same := congrArg (Option.bind · fun t => match t.2.1 with
    | .fresh x => some x
    | _ => none) h
  simp only [Option.bind_map] at same
  exact same

theorem Still.unmoved (h : Still e e') : Unmoved e e' where
  begun r := begunWork?_of_task (h.tasks r)
  fresh r _ hx := (freshWork?_of_task (h.tasks r)).symm.trans hx
  world := h.world

theorem Unmoved.trans {e'' : Engine ρ} (h : Unmoved e e') (h' : Unmoved e' e'') :
    Unmoved e e'' where
  begun r := (h'.begun r).trans (h.begun r)
  fresh r x hx := h.fresh r x (h'.fresh r x hx)
  world := ⟨h'.world.logs.trans h.world.logs, h'.world.clear ∘ h.world.clear,
    h'.world.conflicts.trans h.world.conflicts⟩

theorem Moved.still {e'' : Engine ρ} {now : World × Work ρ} (h : Moved e e' r now)
    (h' : Still e' e'') : Moved e e'' r now where
  begun := (h'.unmoved.begun r).trans h.begun
  others r' hr := (h'.unmoved.begun r').trans (h.others r' hr)
  fresh r x hx := h.fresh r x (h'.unmoved.fresh r x hx)
  world := ⟨h'.world.logs.trans h.world.logs, h'.world.clear ∘ h.world.clear,
    h'.world.conflicts.trans h.world.conflicts⟩

theorem begunWork?_modify_of_ne {r' : Nat} (h : r ≠ r') (f : Request ρ → Request ρ) :
    (e.modify r f).begunWork? r' = e.begunWork? r' := by
  rw [begunWork?, request?_modify, if_neg h, begunWork?]

theorem begunWork?_modify_self (hq : e.request? r = some q) (f : Request ρ → Request ρ) :
    (e.modify r f).begunWork? r = (f q).begun.map fun _ => (f q).work := by
  rw [begunWork?, request?_modify_self hq, Option.bind_some]

theorem begunWork?_eq_some (hq : e.request? r = some q) (begun : q.begun ≠ none) :
    e.begunWork? r = some q.work := by
  obtain ⟨t, ht⟩ := Option.ne_none_iff_exists'.1 begun
  rw [begunWork?, hq, Option.bind_some, ht, Option.map_some]

theorem begunWork?_eq_none (hq : e.request? r = some q) (idle : q.begun = none) :
    e.begunWork? r = none := by
  rw [begunWork?, hq, Option.bind_some, idle, Option.map_none]

theorem freshWork?_modify {f : Request ρ → Request ρ} (hf : ∀ q x, (f q).work ≠ .fresh x)
    {r' : Nat} {x : Activity ρ} (h : (e.modify r f).freshWork? r' = some x) :
    e.freshWork? r' = some x := by
  rw [freshWork?, request?_modify] at h
  split at h
  · obtain ⟨q', hq', hx⟩ := Option.bind_eq_some_iff.1 h
    obtain ⟨q, _, rfl⟩ := Option.map_eq_some_iff.1 hq'
    cases hw : (f q).work with
    | fresh y => exact absurd hw (hf q y)
    | asleep | ended => simp [hw] at hx
  · exact h

theorem work_ne_fresh (p : Activity.Pause ρ) (now : Nat) (x : Activity ρ) :
    p.work now ≠ .fresh x := by
  cases p <;> simp [Activity.Pause.work]

section Advance
variable (h : Orderly lane e submitted none) (hq : e.request? r = some q)
include h hq

theorem Orderly.dropped (fresh : q.isFresh)
    (place : q.stage = .running ∨ ∃ o, q.stage = .overrun o) :
    Orderly lane (e.dropped r) submitted none := by
  have goes : ¬q.hasEnded := by
    rw [Request.isFresh] at fresh
    rw [Request.hasEnded]
    cases hw : q.work <;> simp [hw] at fresh ⊢
  refine h.modify (fun _ => rfl) (fun q' hq' => ?_) fun _ _ => .inl rfl
  rw [hq, Option.some.injEq] at hq'
  subst hq'
  refine (h.fits r q hq).worked place goes (by simp) (fun _ => ⟨_, rfl⟩) fun f hf => ?_
  cases hf
  exact ⟨_, rfl⟩

/-- Work that is dropped has not begun, so that nobody sees it end. -/
theorem unmoved_dropped (fresh : q.isFresh) : Unmoved e (e.dropped r) := by
  refine ⟨fun r' => ?_, fun r' x => freshWork?_modify (by simp), rfl, id, rfl⟩
  by_cases hr : r = r'
  · subst hr
    have idle := (h.fits r q hq).fresh fresh
    rw [Engine.dropped, begunWork?_modify_self hq, begunWork?_eq_none hq idle, idle, Option.map_none]
  · exact begunWork?_modify_of_ne hr _

theorem begun_advanced (goes : ¬q.hasEnded) :
    (if q.isFresh then some e.now else q.begun) ≠ none := by
  split
  · simp
  · rename_i old
    exact (h.fits r q hq).begun_ne_none old goes

theorem Orderly.advanced (goes : ¬q.hasEnded)
    (place : q.stage = .running ∨ ∃ o, q.stage = .overrun o) (x : Activity ρ) :
    Orderly lane (e.advanced r q x) submitted none := by
  let now := x.advance q.cancelled e.world
  have begun := begun_advanced h hq goes
  have order : Orderly lane { e with world := now.1 } submitted none :=
    ⟨⟨h.routes, h.made, h.once, h.calls, h.known, h.fits, h.unsent, h.alive⟩, h.cut⟩
  refine order.modify (fun _ => rfl) (fun q' hq' => ?_) fun _ _ => .inl rfl
  have hq' : some q = some q' := hq.symm.trans hq'
  cases hq'
  refine (h.fits r q hq).worked place goes (work_ne_fresh now.2 now.1.now)
    (fun hb => absurd hb begun) fun f hf => ?_
  cases hp : now.2 <;> rw [hp] at hf <;> cases hf
  exact ⟨_, rfl⟩

theorem moved_advanced (goes : ¬q.hasEnded) (x : Activity ρ) :
    let now := x.advance q.cancelled e.world
    Moved e (e.advanced r q x) r (now.1, now.2.work now.1.now) := by
  intro now
  refine ⟨?_, fun r' hr => ?_, fun r' y => ?_, rfl, id, rfl⟩
  · rw [Engine.advanced, begunWork?_modify_self (e := { e with world := now.1 }) hq]
    obtain ⟨t, ht⟩ := Option.ne_none_iff_exists'.1 (begun_advanced h hq goes)
    exact congrArg (Option.map _) ht
  · exact begunWork?_modify_of_ne (e := { e with world := now.1 }) hr _
  · exact freshWork?_modify (e := { e with world := now.1 }) fun _ =>
      work_ne_fresh now.2 now.1.now

theorem kept_onWork (ready : q.isFresh → q.stage = .running ∨ ∃ o, q.stage = .overrun o) :
    Orderly lane (e.onWork r) submitted none ∧
      (Unmoved e (e.onWork r) ∨
        ∃ x, q.next? e.now = some x ∧ Doing lane e submitted r ∧
          let now := x.advance q.cancelled e.world
          Moved e (e.onWork r) r (now.1, now.2.work now.1.now)) := by
  obtain same | ⟨fresh, same⟩ | ⟨x, hx, same⟩ := onWork_cases hq (h.routes r q hq)
  · rw [same]
    exact ⟨h, .inl (Still.refl e).unmoved⟩
  · have order := h.dropped hq fresh (ready fresh)
    have unmoved := unmoved_dropped h hq fresh
    exact ⟨order.alike same, .inl (unmoved.trans same.still.unmoved)⟩
  · have goes : ¬q.hasEnded := by
      obtain hw | ⟨_, _, _, _, hw, _⟩ := Request.next?_eq_some hx <;> simp [Request.hasEnded, hw]
    have place : q.stage = .running ∨ ∃ o, q.stage = .overrun o := by
      by_cases fresh : q.isFresh
      · exact ready fresh
      · exact (h.fits r q hq).place fresh goes
    have doing : Doing lane e submitted r := by
      obtain place | ⟨o, place⟩ := place
      · exact h.doing hq (by simp [place]) (by simp [place])
      · exact h.doing hq (by simp [place]) (by simp [place])
    have order := h.advanced hq goes place x
    exact ⟨order.alike same, .inr ⟨x, hx, doing, (moved_advanced h hq goes x).still same.still⟩⟩

end Advance
end Engine
end EventSourcing
