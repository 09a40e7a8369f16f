import EventSourcing.Proofs.Engine.Change
import EventSourcing.Proofs.Engine.Runs
import EventSourcing.Proofs.Store.Clock

/-!
Handlers as chains of changes.
Where the lanes are in order, a handler of the engine makes changes of the known kinds and no others,
once it has noted the time of a call or the beginning of work.
-/
namespace EventSourcing

/-- No time passes while work runs up to its end or its next wait. -/
theorem Activity.advance_now {α : Type} (cancelled : Bool) (x : Activity α) (w : World) :
    (x.advance cancelled w).1.now = w.now := by
  induction x generalizing w with
  | done | panic => rfl
  | load a k ih => exact (ih _ _).trans (w.load_now a)
  | append a batch o k ih => exact (ih _ _).trans (w.append_now a batch o)
  | draw k ih | share k ih | cancelled k ih => exact ih _ _
  | count m k ih | note n k ih => exact ih _
  | sleep ms k ih =>
      rw [advance]
      split
      · exact ih w
      · rfl
  | sleepUnlessCancelled ms k ih =>
      rw [advance]
      split
      · exact ih _ w
      · split
        · exact ih _ w
        · rfl

namespace Engine
variable {ρ : Type} {lane : Nat → AggregateId} {sent : List Nat} {e e' : Engine ρ} {r : Nat}
  {q q' : Request ρ} {a : AggregateId} {o : Ending ρ}

/-- What a handler notes before all else: when a call was made, and when work begins. -/
def noted (e : Engine ρ) : Signal → Engine ρ
  | .call r => e.modify r fun q => { q with called := e.now }
  | .work r =>
    match e.request? r with
    | some q =>
      if q.isFresh ∧ q.cancelled = false then e.modify r fun q => { q with begun := some e.now }
      else e
    | none => e
  | _ => e

theorem changes_passSlot (e : Engine ρ) (handed : Option Nat × Pool) :
    Changes sent { e with pool := handed.2 } (e.passSlot handed) :=
  changes_handed { e with pool := handed.2 } handed.1

theorem changes_endWork (hq : e.request? r = some q) (route : q'.route = .laneThenPool a)
    (called : r ∈ sent) (place : q.InPlace)
    (how : (q.begun = none ∧ o = .error (.pool .shuttingDown)) ∨ (∃ x, o = .ok x) ∨
      o = .error (.pool .panicked)) : Changes sent e (e.endWork r q' o) := by
  let ended : Engine ρ := e.modify r fun q => { q with work := .ended o }
  have released : Changes sent e { ended with pool := (e.pool.release r).2 } :=
    changes_shift _ hq called (.ended o place how)
  let replied : Engine ρ := ended.tellLane r q'
  have pool : replied.pool = e.pool := by
    simp only [replied, tellLane]
    split <;> rfl
  have freed : Changes sent e { replied with pool := (e.pool.release r).2 } := by
    have next : Changes sent { ended with pool := (e.pool.release r).2 } _ :=
      changes_tellLane _ r q'
    refine released.trans ((congrArg (Changes sent _) ?_).mp next)
    simp only [replied, tellLane]
    split <;> rfl
  rw [endWork]
  simp only [route]
  change Changes sent e ((replied.passSlot (replied.pool.release r)).noticeEmpty.tellCaller r q')
  rw [pool]
  have passed := freed.trans (replied.changes_passSlot (e.pool.release r))
  exact (passed.trans (changes_noticeEmpty _)).trans (changes_tellCaller _ r q')

theorem changes_runWork (hq : e.request? r = some q) (route : q'.route = .laneThenPool a)
    (called : r ∈ sent) (place : q.InPlace) (x : Activity ρ) :
    Changes sent e (e.runWork r q' x) := by
  have same := x.advance_now q'.cancelled e.world
  have ran : Changes sent e { e with world := (x.advance q'.cancelled e.world).1 } :=
    e.changes_aside e.lanes e.drains same
  rw [runWork]
  dsimp only
  split
  · rename_i y _
    exact ran.trans (changes_endWork (e := { e with world := _ }) hq route called place
      (.inr (.inl ⟨y, rfl⟩)))
  · rw [route, breakdown]
    · exact ran.trans (changes_endWork (e := { e with world := _ }) hq route called place
        (.inr (.inr rfl)))
    · simp
  · rename_i ms wakeable rest _
    let w : World := (x.advance q'.cancelled e.world).1
    let wake : Nat := w.now + ms
    let asleep : Engine ρ :=
      modify { e with world := w } r fun q => { q with work := .asleep wake wakeable rest }
    have slept : Changes sent e asleep := ran.trans
      (changes_shift (e := { e with world := w }) _ hq called (.slept wake wakeable rest place))
    refine slept.trans (.single (.signal wake .background (.work r) (Nat.le_add_right ..) ?_))
    intro q₁ hq₁ fresh
    rw [request?_modify_self (e := { e with world := w }) hq, Option.some.injEq] at hq₁
    rw [← hq₁] at fresh
    cases fresh

/-- A slot that comes too late is passed on before the pool answers. -/
theorem changes_declined {handed : Option Nat × Pool} (hq : e.request? r = some q)
    (route : q.route = .laneThenPool a) (waiting : q.stage = .waiting) (called : r ∈ sent)
    (h : Shift e.now r e.pool q handed.2 (q.close o)) :
    Changes sent e ((e.passSlot handed).leavePool r o) := by
  have closed : Changes sent e { e.modify r (fun q => q.close o) with pool := handed.2 } :=
    changes_shift _ hq called h
  have hpassed : (e.passSlot handed).request? r = some q := (e.request?_passSlot handed r).trans hq
  have passed : Changes sent e ((e.passSlot handed).modify r fun q => q.close o) := by
    rw [passSlot]
    split
    · exact closed
    · split
      · exact closed.trans (changes_wake _ _ trivial)
      · exact closed
  rw [leavePool]
  simp only [hpassed, route, waiting]
  exact passed.finishJob called

theorem changes_onCaller (called : r ∈ sent) : Changes sent e (e.onCaller r) := by
  rw [onCaller]
  split
  · exact .refl
  · rename_i q hq
    split
    · exact .refl
    · rename_i unreplied
      rw [Bool.not_eq_true, Option.isSome_eq_false_iff, Option.isNone_iff_eq_none] at unreplied
      split
      · rename_i o ho
        exact changes_tell hq called unreplied (.inl ho)
      · split
        · rename_i late
          exact changes_tell hq called unreplied (.inr ⟨late, _, rfl⟩)
        · exact .refl

section Signals
variable (h : Orderly lane e sent none)
include h

theorem changes_onCall (hq : e.request? r = some q) (unreplied : q.answer = none) :
    Changes (sent ++ [r]) (e.noted (.call r)) (e.onCall r) := by
  let called : Request ρ := { q with called := e.now }
  have hcalled : (e.noted (.call r)).request? r = some called := request?_modify_self hq _
  have route := h.routes r q hq
  have entered : Changes (sent ++ [r]) (e.noted (.call r))
      ((e.noted (.call r)).enterLane r (lane r)) := changes_enterLane _ r (lane r)
  have hentered : ((e.noted (.call r)).enterLane r (lane r)).request? r = some called := by
    rw [enterLane]
    split
    split <;> exact hcalled
  have same := entered.now_eq
  rw [onCall]
  simp only [request?_modify_self hq, route]
  split
  · rename_i late
    have late : called.overdue ((e.noted (.call r)).enterLane r (lane r)).now = true := late
    exact entered.trans (changes_tell hentered (by simp) unreplied (.inr ⟨late, _, rfl⟩))
  · rename_i early
    split
    · rename_i t ht
      rw [Bool.not_eq_true] at early
      have later := called.le_of_not_overdue early ht
      refine entered.trans (.single (.signal t _ (.caller r) later ?_))
      exact List.mem_append_right _ (List.mem_singleton_self r)
    · exact entered

theorem changes_onSlot (r : Nat) : Changes sent e (e.onSlot r) := by
  rw [onSlot]
  split
  · exact .refl
  · rename_i q hq
    have route := h.routes r q hq
    split
    · rename_i waiting
      have called := (h.doing hq (by simp [waiting]) (by simp [waiting])).sent
      have fresh := (h.fits r q hq).early (.inr waiting)
      have idle := (h.fits r q hq).fresh fresh
      split
      · rename_i closing
        dsimp only
        split
        · rename_i has
          exact changes_declined hq route waiting called (.declined waiting idle closing has)
        · rename_i slotless
          exact changes_leavePool hq route (.inr waiting) called
            (.dismissed waiting idle closing slotless)
      · split
        · rename_i has
          exact changes_startWork hq route fresh called (.handed waiting has)
        · rename_i slotless
          split
          · rename_i late
            exact changes_expire hq route (.inr waiting) called
              (.expired _ waiting late slotless)
          · exact .refl
    · exact .refl

theorem changes_onOutcome (r : Nat) : Changes sent e (e.onOutcome r) := by
  rw [onOutcome]
  split
  · exact .refl
  · rename_i q hq
    have route := h.routes r q hq
    split
    · rename_i o running ended
      have called := (h.doing hq (by simp [running]) (by simp [running])).sent
      have stopped : q.hasEnded = true := by rw [Request.hasEnded, ended]
      rw [leavePool]
      simp only [hq, route, running, stopped, if_true]
      exact changes_finishJob hq called (.finished o (.inl ⟨running, ended⟩))
    · rename_i running goes
      have called := (h.doing hq (by simp [running]) (by simp [running])).sent
      have goes : q.hasEnded = false := by
        rw [Request.hasEnded]
        split
        · rename_i o ended
          exact absurd ended (goes o)
        · rfl
      split
      · rename_i late
        let asked : Request ρ := { q with cancelled := true }
        have hasked : (e.cancel r).request? r = some asked := by
          rw [cancel]
          simp only [hq]
          split
          · exact request?_modify_self hq _
          · exact request?_modify_self hq _
        have asks : Changes sent e (e.cancel r) := e.changes_cancel r
        have now := asks.now_eq
        have late : asked.overdue (e.cancel r).now = true := by
          rw [now]
          exact late
        exact asks.trans
          (changes_overrun hasked route running goes late called q.poolLimit)
      · exact .refl
    · rename_i o x overran ended
      have called := (h.doing hq (by simp [overran]) (by simp [overran])).sent
      have stopped : q.hasEnded = true := by rw [Request.hasEnded, ended]
      simp only [route]
      exact changes_finishJob hq called (.finished o (.inr ⟨overran, stopped⟩))
    · exact .refl

theorem changes_onWork (hready : ∀ q, e.request? r = some q → q.isFresh →
    q.stage = .running ∨ ∃ o, q.stage = .overrun o) :
    Changes sent (e.noted (.work r)) (e.onWork r) := by
  cases hq : e.request? r with
  | none =>
      rw [onWork, noted, hq]
      exact .refl
  | some q =>
      have route := h.routes r q hq
      have fits := h.fits r q hq
      have called (place : q.InPlace) : r ∈ sent := by
        obtain ⟨running | ⟨o, overran⟩, _⟩ := place
        · exact (h.doing hq (by simp [running]) (by simp [running])).sent
        · exact (h.doing hq (by simp [overran]) (by simp [overran])).sent
      rw [onWork, noted]
      simp only [hq]
      cases hw : q.work with
      | ended o =>
          have old : q.isFresh = false := by rw [Request.isFresh, hw]
          simp only [old, Bool.false_eq_true, false_and, if_false]
          exact .refl
      | fresh x =>
          have fresh : q.isFresh = true := by rw [Request.isFresh, hw]
          have place : q.InPlace := ⟨hready q hq fresh, q.hasEnded_of_isFresh fresh⟩
          cases hc : q.cancelled with
          | true =>
              simp only [route, Bool.true_eq_false, and_false, if_false]
              exact changes_endWork hq route (called place) place
                (.inl ⟨fits.fresh fresh, rfl⟩)
          | false =>
              simp only [route, fresh, and_self, if_true]
              have hbegun : (e.modify r fun q => { q with begun := some e.now }).request? r =
                  some { q with begun := some e.now } := request?_modify_self hq _
              exact changes_runWork hbegun route (called place) place x
      | asleep wake wakeable rest =>
          have old : q.isFresh = false := by rw [Request.isFresh, hw]
          have goes : q.hasEnded = false := by rw [Request.hasEnded, hw]
          have place : q.InPlace := ⟨fits.place (by simp [old]) (by simp [goes]), goes⟩
          simp only [old, Bool.false_eq_true, false_and, if_false]
          split
          · exact changes_runWork hq route (called place) place _
          · split
            · exact changes_runWork hq route (called place) place _
            · exact .refl

end Signals

theorem changes_onWorker (h : Orderly lane e sent (some a)) :
    Changes sent e (e.onWorker a) := by
  rw [onWorker]
  obtain ⟨r, lanes, took, order, _, doing, pending⟩ | ⟨lanes, gone, order⟩ := h.takeOrRetire
  · rw [took]
    obtain ⟨q, hq⟩ := doing.request order
    have pending : q.stage = .pending := Option.some.inj ((stage?_eq hq).symm.trans pending)
    have fresh := (order.fits r q hq).early (.inl pending)
    have moved : Changes sent e { e with lanes } := e.changes_aside lanes e.drains rfl
    exact moved.trans (changes_startJob hq (order.routes r q hq) fresh
      ((order.fits r q hq).fresh fresh) pending doing.sent)
  · rw [gone]
    exact e.changes_aside lanes e.drains rfl

section Closing
variable (e)

theorem changes_abandon (d running : Nat) : Changes sent e (e.abandon d running) := by
  have cancelled : Changes sent e { e with pool := { e.pool with cancelled := true } } :=
    .single .cancelAll
  have asked := cancelled.trans (changes_foldl _ e.pool.running changes_cancel)
  exact asked.trans (changes_modifyDrain _ d _)

theorem changes_onClose (d : Nat) : Changes sent e (e.onClose d) := by
  have closed : Changes sent e { e with pool := e.pool.close } := .single .close
  have nudged := closed.trans (changes_foldl _ e.pool.line changes_nudge)
  have noted (f : Drain → Drain) := nudged.trans (changes_modifyDrain _ d f)
  rw [onClose]
  split
  · exact (noted _).trans (changes_modifyDrain _ d _)
  · split
    · exact (noted _).trans (changes_abandon _ d _)
    · split
      · rename_i dr hdr
        refine (noted _).trans (.single (.signal _ _ (.drained d) ?_ trivial))
        rw [modifyDrain, List.getElem?_modify_eq] at hdr
        obtain ⟨dr₀, _, rfl⟩ := Option.map_eq_some_iff.1 hdr
        exact Nat.le_add_right ..
      · exact noted _

theorem changes_onDrained (d : Nat) : Changes sent e (e.onDrained d) := by
  rw [onDrained]
  split
  · exact .refl
  · split
    · exact .refl
    · split
      · exact e.changes_modifyDrain d _
      · split
        · exact e.changes_abandon d _
        · exact .refl

end Closing

/-- What holds of a signal that is taken from the agenda: calls come once, callers have called, and
work that begins has a place to run. -/
structure Meets (e : Engine ρ) (sent : List Nat) (s : Signal) : Prop where
  call : ∀ r, s = .call r → r ∉ sent ∧ (e.request? r).isSome ∧ e.due (.call r) = 0
  caller : ∀ r, s = .caller r → r ∈ sent
  work : ∀ r, s = .work r → ∀ q, e.request? r = some q → q.isFresh →
    q.stage = .running ∨ ∃ o, q.stage = .overrun o

section Handle
variable {s : Signal} (h : Orderly lane e sent s.served) (fit : e.Meets sent s)
include h fit

theorem changes_handle
    (unreplied : ∀ r q, r ∉ sent → e.request? r = some q → q.answer = none) :
    Changes (sent ++ s.submits) (e.noted s) (e.handle s) := by
  have nothing {e e' : Engine ρ} (h : Changes sent e e') : Changes (sent ++ []) e e' := by
    rw [List.append_nil]
    exact h
  cases s with
  | call r =>
      obtain ⟨fresh, made, _⟩ := fit.call r rfl
      obtain ⟨q, hq⟩ := Option.isSome_iff_exists.1 made
      exact changes_onCall h hq (unreplied r q fresh hq)
  | caller r => exact nothing (e.changes_onCaller (fit.caller r rfl))
  | worker a => exact nothing (changes_onWorker h)
  | slot r => exact nothing (changes_onSlot h r)
  | outcome r => exact nothing (changes_onOutcome h r)
  | work r => exact nothing (changes_onWork h (fit.work r rfl))
  | close d => exact nothing (e.changes_onClose d)
  | drained d => exact nothing (e.changes_onDrained d)

/-- Each signal keeps the lanes in order. Only work writes to the logs, when it begins or after it
has begun. -/
theorem Orderly.handle :
    Orderly lane (e.handle s) (sent ++ s.submits) none ∧
      ((e.handle s).world.log = e.world.log ∨
        ∃ r q, s = .work r ∧ e.request? r = some q ∧
          (q.begun ≠ none ∨ q.isFresh = true ∧ q.cancelled = false)) := by
  have nothing {e' : Engine ρ} (kept : Orderly lane e' sent none) :
      Orderly lane e' (sent ++ []) none := by
    rw [List.append_nil]
    exact kept
  have quiet {e' : Engine ρ} (kept : Kept lane e e' sent none) :
      Orderly lane e' (sent ++ []) none ∧ (e'.world.log = e.world.log ∨
        ∃ r q, s = .work r ∧ e.request? r = some q ∧
          (q.begun ≠ none ∨ q.isFresh = true ∧ q.cancelled = false)) :=
    ⟨nothing kept.order, .inl kept.still.world.logs⟩
  cases s with
  | call r =>
      obtain ⟨fresh, made, uncalled⟩ := fit.call r rfl
      have kept := kept_onCall h made fresh uncalled
      exact ⟨kept.order, .inl kept.still.world.logs⟩
  | caller r => exact quiet (kept_onCaller h r)
  | worker a =>
      have kept := kept_onWorker h
      exact quiet kept
  | slot r => exact quiet (kept_onSlot h r)
  | outcome r => exact quiet (kept_onOutcome h r)
  | close d => exact quiet ((Kept.refl h).alike (e.alike_onClose d))
  | drained d => exact quiet ((Kept.refl h).alike (e.alike_onDrained d))
  | work r =>
      rw [Engine.handle]
      cases hq : e.request? r with
      | none =>
          rw [onWork, hq]
          exact ⟨nothing h, .inl rfl⟩
      | some q =>
          obtain ⟨order, same | ⟨x, hx, _⟩⟩ := kept_onWork h hq (fit.work r rfl q hq)
          · exact ⟨nothing order, .inl same.world.logs⟩
          · refine ⟨nothing order, .inr ⟨r, q, rfl, hq, ?_⟩⟩
            obtain hw | ⟨wake, wakeable, rest, b, hw, _⟩ := Request.next?_eq_some hx
            · refine .inr ⟨by rw [Request.isFresh, hw], ?_⟩
              rw [Request.next?, hw] at hx
              cases hc : q.cancelled with
              | false => rfl
              | true => simp [hc] at hx
            · refine .inl ((h.fits r q hq).begun_ne_none ?_ ?_)
              · simp [Request.isFresh, hw]
              · simp [Request.hasEnded, hw]

end Handle

end Engine
end EventSourcing
