import EventSourcing.Proofs.Pool.Changes

/-!
Handlers of an engine whose requests all go to the pool.
Each of them is a chain of changes, and only a call lets somebody join the line: the one who calls.
-/
namespace EventSourcing.PoolTraffic
open Engine
variable {ρ : Type} {sent : List Nat} {e : Engine ρ} {r : Nat} {q : Request ρ} {o : Ending ρ}
  {p : Pool}

section Links
variable (e)

theorem changes_wake (rank : Rank) {s : Signal} (fit : MayBeDue e s) :
    Changes sent e [] (e.wake rank s) :=
  .single (.signal e.now rank s (Nat.le_refl _) fit)

theorem changes_count (m : Metric) : Changes sent e [] (e.count m) :=
  .single (.aside e.drains _ rfl)

theorem changes_modifyDrain (d : Nat) (f : Drain → Drain) :
    Changes sent e [] (e.modifyDrain d f) :=
  .single (.aside (e.drains.modify d f) e.world rfl)

theorem changes_foldl {α : Type} (xs : List α) {f : Engine ρ → α → Engine ρ}
    (hf : ∀ e x, Changes sent e [] (f e x)) : Changes sent e [] (xs.foldl f e) := by
  refine List.foldlRecOn xs f .refl fun e' done x _ => ?_
  exact done.and (hf e' x)

theorem changes_noticeEmpty : Changes sent e [] e.noticeEmpty := by
  rw [noticeEmpty]
  split
  · exact changes_foldl e _ fun e d => changes_wake e _ (s := .drained d.2) trivial
  · exact .refl

theorem changes_nudge (c : Nat) : Changes sent e [] (e.nudge c) := by
  rw [nudge]
  split
  · exact changes_wake e _ trivial
  · exact .refl

theorem changes_handed (c? : Option Nat) :
    Changes sent e [] (match c? with
      | none => e
      | some c => e.nudge c) := by
  cases c? with
  | none => exact .refl
  | some c => exact changes_nudge e c

end Links

theorem request?_cancel (hq : e.request? r = some q) :
    (e.cancel r).request? r = some { q with cancelled := true } := by
  rw [cancel]
  simp only [hq]
  split <;> exact request?_modify_self hq _

section Callers
variable (hq : e.request? r = some q) (route : q.route = .pool) (called : r ∈ sent)
include hq called

theorem changes_cancel (holds : q.HoldsSlot) : Changes sent e [] (e.cancel r) := by
  have asked : Changes sent e [] (e.modify r fun q => { q with cancelled := true }) :=
    .single (.move _ hq called (.asked holds))
  rw [cancel]
  simp only [hq]
  split
  · rename_i wakeable
    refine asked.and (changes_wake _ _ ⟨_, request?_modify_self hq _, fun fresh => ?_⟩)
    rw [Request.isWakeable] at wakeable
    rw [Request.isFresh] at fresh
    cases hw : q.work <;> simp [hw] at wakeable fresh
  · exact asked

include route

/-- A caller of the pool is told at once. -/
theorem changes_leavePool (h : Move e.now r e.pool q [] p (q.replied e.now o)) :
    Changes sent e [] ({ e with pool := p }.leavePool r o) := by
  have moved : Changes sent e [] { e.modify r (fun q => q.replied e.now o) with pool := p } :=
    .single (.move _ hq called h)
  have hq' : ({ e with pool := p } : Engine ρ).request? r = some q := hq
  rw [leavePool]
  simp only [hq', route]
  rw [Engine.tell, modify_modify]
  exact moved

theorem changes_expire {l : Nat}
    (h : Move e.now r e.pool q [] p (q.replied e.now (.error (.pool (.timeout l))))) :
    Changes sent e [] ({ e with pool := p }.expire r l) :=
  (changes_count e .poolTimeouts).and
    (changes_leavePool (e := e.count .poolTimeouts) hq route called h)

/-- The time of work that holds a slot is up: it is asked to stop, and its caller is told. -/
theorem changes_overrun (running : q.stage = .running) (goes : q.hasEnded = false)
    (late : q.overdue e.now = true) (l : Nat) : Changes sent e [] ((e.cancel r).expire r l) := by
  have asks : Changes sent e [] (e.cancel r) := changes_cancel hq called ⟨goes, .inl running⟩
  have now := asks.now_eq
  refine asks.and (changes_expire (request?_cancel hq) route called (.overran l running goes rfl ?_))
  rw [now]
  exact late

end Callers

theorem request?_leavePool (hq : e.request? r = some q) (route : q.route = .pool) :
    (e.leavePool r o).request? r = some (q.replied e.now o) := by
  rw [leavePool]
  simp only [hq, route]
  rw [Engine.tell, modify_modify]
  exact request?_modify_self hq _

theorem request?_expire (hq : e.request? r = some q) (route : q.route = .pool) (l : Nat) :
    (e.expire r l).request? r = some (q.replied e.now (.error (.pool (.timeout l)))) :=
  request?_leavePool (e := e.count .poolTimeouts) hq route

/-- Work has been given a slot. -/
def placed (e : Engine ρ) (r : Nat) (p : Pool) : Engine ρ :=
  { e.modify r fun q => { q with stage := .running, cancelled := p.cancelled } with pool := p }

theorem request?_placed (hq : e.request? r = some q) (p : Pool) :
    (placed e r p).request? r = some { q with stage := .running, cancelled := p.cancelled } :=
  request?_modify_self hq _

theorem changes_placed (hq : e.request? r = some q) (called : r ∈ sent) (fresh : q.isFresh = true)
    (seat : Seat r e.pool q p) : Changes sent e [] (placed e r p) :=
  .single (.move _ hq called (.seated fresh seat))

/-- Work that has a slot becomes due, and if its time is up by then, its caller is told at once. -/
theorem changes_startWork (hq : e.request? r = some q) (route : q.route = .pool) (called : r ∈ sent)
    (fresh : q.isFresh = true) (p : Pool) :
    Changes sent (placed e r p) [] ({ e with pool := p }.startWork r q) := by
  have goes := q.hasEnded_of_isFresh fresh
  have hplaced := request?_placed hq p
  have due : Changes sent (placed e r p) [] ((placed e r p).wake .background (.work r)) :=
    changes_wake _ _ ⟨_, hplaced, fun _ => ⟨goes, .inl rfl⟩⟩
  rw [startWork]
  change Changes sent _ [] (if q.overdue e.now = true then
    (((placed e r p).wake .background (.work r)).cancel r).expire r q.poolLimit else _)
  split
  · rename_i late
    exact due.and (changes_overrun (e := (placed e r p).wake .background (.work r)) hplaced route
      called rfl goes late _)
  · rename_i early
    rw [Bool.not_eq_true] at early
    split
    · rename_i t ht
      exact due.and (.single (.signal t _ _ (Request.le_of_not_overdue early ht) trivial))
    · exact due

/-- What comes of a request that has come to the pool, once the pool has answered. -/
def answered (e : Engine ρ) (r : Nat) (q : Request ρ) : Pool.Admission × Pool → Engine ρ
  | (.refused why, _) => e.leavePool r (.error (.pool why))
  | (.admitted, pool) => { e with pool }.startWork r q
  | (.inLine, pool) =>
    if q.overdue e.now then e.expire r q.poolLimit
    else
      let e := { e with pool }.modify r fun q => { q with stage := .waiting }
      match q.deadline? with
      | some t => e.schedule t (.deadline q.poolInFront) (.slot r)
      | none => e

theorem enterPool_eq (hq : e.request? r = some q) (limit : Nat) :
    let noted : Engine ρ := e.modify r fun q => { q with poolLimit := limit }
    e.enterPool r limit = answered noted r { q with poolLimit := limit } (e.pool.arrive r) := by
  rw [enterPool]
  simp only [request?_modify_self hq]
  rfl

section Arrivals
variable (hq : e.request? r = some q) (route : q.route = .pool) (called : r ∈ sent)
  (early : q.isFresh = true ∧ q.cancelled = false) (pending : q.stage = .pending)
  (unreplied : q.answer = none)
include hq route called early pending unreplied

/-- Who comes to the pool has come for good, and is turned away only where there is no room. -/
theorem changes_enterPool (limit : Nat) :
    ∃ arrived, arrived.Sublist [r] ∧ Changes sent e arrived (e.enterPool r limit) ∧
      ∃ q', (e.enterPool r limit).request? r = some q' ∧ q'.stage ≠ .pending ∧
        ∀ n, q'.turnedAway? = some n ↔ (e.pool.arrive r).1 = .refused (.saturated n) := by
  obtain ⟨fresh, unasked⟩ := early
  let q₁ : Request ρ := { q with poolLimit := limit }
  let e₁ : Engine ρ := e.modify r fun q => { q with poolLimit := limit }
  have hq₁ : e₁.request? r = some q₁ := request?_modify_self hq _
  have noted : Changes sent e [] e₁ := .single (.move _ hq called (.noted pending q.called limit))
  have enters : e.enterPool r limit = answered e₁ r q₁ (e₁.pool.arrive r) := enterPool_eq hq limit
  have silent : q₁.turnedAway? = none := by
    simp only [Request.turnedAway?, q₁, unreplied]
  rw [enters]
  cases h : e₁.pool.arrive r with
  | mk admission p =>
      have arrives : (e.pool.arrive r).1 = admission := congrArg Prod.fst h
      rw [arrives]
      cases admission with
      | refused why =>
          have left := changes_leavePool hq₁ route called (.refused pending unasked h)
          refine ⟨[], List.nil_sublist _, noted.and left, ?_⟩
          refine ⟨q₁.replied e.now (.error (.pool why)), request?_leavePool hq₁ route, ?_, ?_⟩
          · simp [Request.replied]
          · intro n
            simp only [Request.turnedAway?, Request.replied]
            cases why <;> simp
      | admitted =>
          have seated := changes_placed hq₁ called fresh (.free pending h)
          have started := changes_startWork hq₁ route called fresh p
          refine ⟨[], List.nil_sublist _, noted.and (seated.and started), ?_⟩
          obtain ⟨q', hq', came, turned⟩ := started.past (request?_placed hq₁ p) (by simp)
          refine ⟨q', hq', came, fun n => ⟨fun now => ?_, by simp⟩⟩
          have before : q₁.turnedAway? = some n := turned n now
          rw [silent] at before
          cases before
      | inLine =>
          rw [answered]
          split
          · rename_i late
            have left := changes_expire (p := e₁.pool) hq₁ route called
              (.skipped limit pending unasked late h)
            refine ⟨[], List.nil_sublist _, noted.and left, _, request?_expire hq₁ route _, ?_, ?_⟩
            · simp [Request.replied]
            · simp [Request.replied, Request.turnedAway?]
          · rename_i early
            rw [Bool.not_eq_true] at early
            let queued : Engine ρ :=
              { e₁.modify r fun q => { q with stage := .waiting } with pool := p }
            have hqueued : queued.request? r = some { q₁ with stage := .waiting } :=
              request?_modify_self hq₁ _
            have joins : Changes sent e [r] queued :=
              noted.trans (.single (.move _ hq₁ called (.queued pending h)))
            have waits : ∃ q', queued.request? r = some q' ∧ q'.stage ≠ .pending ∧
                ∀ n, q'.turnedAway? = some n ↔
                  Pool.Admission.inLine = .refused (.saturated n) := by
              refine ⟨_, hqueued, by simp, fun n => ?_⟩
              change q₁.turnedAway? = some n ↔ _
              rw [silent]
              simp
            split
            · rename_i t ht
              exact ⟨[r], List.Sublist.refl _, joins.and (.single (.signal t _ _
                (Request.le_of_not_overdue early ht) trivial)), waits⟩
            · exact ⟨[r], List.Sublist.refl _, joins, waits⟩

theorem changes_onCall :
    ∃ arrived, arrived.Sublist [r] ∧ Changes sent e arrived (e.onCall r) ∧
      ∃ q', (e.onCall r).request? r = some q' ∧ q'.stage ≠ .pending ∧
        ∀ n, q'.turnedAway? = some n ↔ (e.pool.arrive r).1 = .refused (.saturated n) := by
  let q₁ : Request ρ := { q with called := e.now }
  let e₁ : Engine ρ := e.modify r fun q => { q with called := e.now }
  have hq₁ : e₁.request? r = some q₁ := request?_modify_self hq _
  have noted : Changes sent e [] e₁ :=
    .single (.move _ hq called (.noted pending e.now q.poolLimit))
  have calls : e.onCall r = e₁.enterPool r (q.limit.getD 0) := by
    rw [onCall]
    simp only [request?_modify_self hq, route]
    rfl
  obtain ⟨arrived, self, enters, came⟩ :=
    changes_enterPool hq₁ route called early pending unreplied (q.limit.getD 0)
  rw [calls]
  exact ⟨arrived, self, noted.trans enters, came⟩

end Arrivals

theorem changes_passSlot (e : Engine ρ) (handed : Option Nat × Pool) :
    Changes sent { e with pool := handed.2 } [] (e.passSlot handed) :=
  changes_handed { e with pool := handed.2 } handed.1

/-- A slot that comes too late is passed on before the caller is told. -/
theorem changes_declined {handed : Option Nat × Pool} (hq : e.request? r = some q)
    (called : r ∈ sent) (route : q.route = .pool)
    (h : Move e.now r e.pool q [] handed.2 (q.replied e.now o)) :
    Changes sent e [] ((e.passSlot handed).leavePool r o) := by
  have replied : Changes sent e []
      { e.modify r (fun q => q.replied e.now o) with pool := handed.2 } :=
    .single (.move _ hq called h)
  have hpassed : (e.passSlot handed).request? r = some q := (e.request?_passSlot handed r).trans hq
  rw [leavePool]
  simp only [hpassed, route]
  rw [Engine.tell, modify_modify, passSlot]
  split
  · exact replied
  · split
    · exact replied.and (changes_wake _ _ trivial)
    · exact replied

section Working
variable {q' : Request ρ} (hq : e.request? r = some q) (called : r ∈ sent) (holds : q.HoldsSlot)
  (route : q'.route = .pool) (settled : ∀ o, q'.stage ≠ .overrun o)
include hq called holds route settled

theorem changes_endWork (how : (∃ x, o = .ok x) ∨ o = .error (.pool .panicked)) :
    Changes sent e [] (e.endWork r q' o) := by
  let ended : Engine ρ := e.modify r fun q => { q with work := .ended o }
  have released : Changes sent e [] { ended with pool := (e.pool.release r).2 } :=
    .single (.move _ hq called (.ended o holds how))
  have passed := (released.and (changes_passSlot ended (e.pool.release r))).and
    (changes_noticeEmpty _)
  rw [endWork]
  cases stage : q'.stage with
  | running =>
      simp only [route]
      exact passed.and (changes_wake _ _ trivial)
  | overrun o => exact absurd stage (settled o)
  | _ =>
      simp only [route]
      exact passed

theorem changes_runWork (x : Activity ρ) : Changes sent e [] (e.runWork r q' x) := by
  have same := x.advance_now q'.cancelled e.world
  let ran : Engine ρ := { e with world := (x.advance q'.cancelled e.world).1 }
  have runs : Changes sent e [] ran := .single (.aside e.drains _ same)
  rw [runWork]
  dsimp only
  split
  · rename_i y _
    exact runs.and (changes_endWork (e := ran) hq called holds route settled (.inl ⟨y, rfl⟩))
  · rw [route]
    exact runs.and (changes_endWork (e := ran) hq called holds route settled (.inr rfl))
  · rename_i ms wakeable rest _
    let wake : Nat := ran.now + ms
    have slept : Changes sent e []
        (ran.modify r fun q => { q with work := .asleep wake wakeable rest }) :=
      runs.and (.single (.move (e := ran) _ hq called (.slept wake wakeable rest holds)))
    refine slept.and (.single (.signal wake .background (.work r) (Nat.le_add_right ..)
      ⟨_, request?_modify_self (e := ran) hq _, fun fresh => ?_⟩))
    cases fresh

end Working

section Signals
variable (h : Orderly e sent)
include h

/-- Who has come to the pool has called. -/
theorem Orderly.called (hq : e.request? r = some q) (came : q.stage ≠ .pending) : r ∈ sent := by
  by_contra unsent
  exact came (h.unsent r q hq unsent).1

theorem changes_onWork (ready : ∀ q, e.request? r = some q → q.isFresh = true → q.HoldsSlot) :
    Changes sent e [] (e.onWork r) := by
  rw [onWork]
  split
  · exact .refl
  · rename_i q hq
    have fits := h.fits r q hq
    split
    · exact .refl
    · rename_i x hw
      have holds := ready q hq (by rw [Request.isFresh, hw])
      have called := h.called hq holds.not_pending
      simp only [fits.route]
      have begun : Changes sent e [] (e.modify r fun q => { q with begun := some e.now }) :=
        .single (.move _ hq called (.begun holds))
      exact begun.and (changes_runWork (request?_modify_self hq _) called ⟨holds.1, holds.2⟩
        fits.route fits.settled x)
    · rename_i wake wakeable rest hw
      have holds := fits.placed (by rw [Request.isFresh, hw]) (by rw [Request.hasEnded, hw])
      have runs (x : Activity ρ) : Changes sent e [] (e.runWork r q x) :=
        changes_runWork hq (h.called hq holds.not_pending) holds fits.route fits.settled x
      split
      · exact runs _
      · split
        · exact runs _
        · exact .refl

theorem changes_onSlot (r : Nat) : Changes sent e [] (e.onSlot r) := by
  rw [onSlot]
  split
  · exact .refl
  · rename_i q hq
    have fits := h.fits r q hq
    split
    · rename_i waiting
      have called := h.called hq (by simp [waiting])
      obtain ⟨fresh, unasked, _⟩ := fits.early (.inr waiting)
      split
      · rename_i closing
        dsimp only
        split
        · rename_i has
          exact changes_declined hq called fits.route (.declined waiting unasked closing has)
        · rename_i slotless
          exact changes_leavePool hq fits.route called
            (.dismissed waiting unasked closing slotless)
      · split
        · rename_i has
          exact (changes_placed hq called fresh (.handed waiting has)).and
            (changes_startWork hq fits.route called fresh _)
        · rename_i slotless
          split
          · rename_i late
            exact changes_expire hq fits.route called (.expired _ waiting unasked late slotless)
          · exact .refl
    · exact .refl

theorem changes_onOutcome (r : Nat) : Changes sent e [] (e.onOutcome r) := by
  rw [onOutcome]
  split
  · exact .refl
  · rename_i q hq
    have fits := h.fits r q hq
    split
    · rename_i o running ended
      have called := h.called hq (by simp [running])
      exact changes_leavePool (p := e.pool) hq fits.route called
        (.answered o running ended (fits.ends o ended))
    · rename_i running goes
      have called := h.called hq (by simp [running])
      have goes : q.hasEnded = false := by
        rw [Request.hasEnded]
        split
        · rename_i o ended
          exact absurd ended (goes o)
        · rfl
      split
      · rename_i late
        exact changes_overrun hq fits.route called running goes late _
      · exact .refl
    · rename_i o _ overran _
      exact absurd overran (fits.settled o)
    · exact .refl

end Signals

section Closing

theorem holds_cancel (held : e.Holds r) (r' : Nat) : (e.cancel r').Holds r := by
  obtain ⟨q, hq, goes, place⟩ := held
  by_cases hr : r' = r
  · subst hr
    refine ⟨_, request?_cancel hq, goes, ?_⟩
    exact place.imp_right fun isOver => ⟨isOver.1, rfl⟩
  · refine ⟨q, ?_, goes, place⟩
    rw [cancel]
    split
    · exact hq
    · dsimp only
      split <;> exact (request?_modify ..).trans ((if_neg hr).trans hq)

/-- Work that holds its slot is asked to stop, one after the other. -/
theorem changes_cancelEach (rs : List Nat) (holding : ∀ r ∈ rs, e.Holds r ∧ r ∈ sent) :
    Changes sent e [] (rs.foldl cancel e) := by
  induction rs generalizing e with
  | nil => exact .refl
  | cons r rest ih =>
      obtain ⟨⟨q, hq, holds⟩, called⟩ := holding r List.mem_cons_self
      refine (changes_cancel hq called holds).and (ih fun r' hr' => ?_)
      obtain ⟨held, called'⟩ := holding r' (List.mem_cons_of_mem r hr')
      exact ⟨holds_cancel held r, called'⟩

theorem changes_abandon (h : Orderly e sent) (d running : Nat) :
    Changes sent e [] (e.abandon d running) := by
  have cancelled : Changes sent e [] { e with pool := { e.pool with cancelled := true } } :=
    .single .cancelAll
  have asked := cancelled.and (changes_cancelEach e.pool.running fun r hr => ?_)
  · exact asked.and (changes_modifyDrain _ d _)
  · obtain ⟨q, hq, holds⟩ := (h.serves.runs r).1 hr
    exact ⟨⟨q, hq, holds⟩, h.called hq holds.not_pending⟩

theorem changes_onClose (h : Orderly e sent) (d : Nat) : Changes sent e [] (e.onClose d) := by
  have closed : Changes sent e [] { e with pool := e.pool.close } := .single .close
  have replied := closed.and (changes_foldl _ e.pool.line changes_nudge)
  have noted (f : Drain → Drain) := replied.and (changes_modifyDrain _ d f)
  rw [onClose]
  split
  · exact (noted _).and (changes_modifyDrain _ d _)
  · split
    · exact (noted _).and (changes_abandon ((noted _).orderly h) _ _)
    · split
      · rename_i dr hdr
        refine (noted _).and (.single (.signal _ _ (.drained d) ?_ trivial))
        rw [modifyDrain, List.getElem?_modify_eq] at hdr
        obtain ⟨dr₀, _, rfl⟩ := Option.map_eq_some_iff.1 hdr
        exact Nat.le_add_right ..
      · exact noted _

theorem changes_onDrained (h : Orderly e sent) (d : Nat) :
    Changes sent e [] (e.onDrained d) := by
  rw [onDrained]
  split
  · exact .refl
  · split
    · exact .refl
    · split
      · exact changes_modifyDrain e d _
      · split
        · exact changes_abandon h d _
        · exact .refl

end Closing

/-- What holds of a signal that an engine with callers of its pool meets: calls come once, and work
that begins has a slot. -/
structure Meets (e : Engine ρ) (sent : List Nat) (s : Signal) : Prop where
  pooling : s.isPooling = true
  calls : e.CallsOnce sent s
  ready : ∀ r, s = .work r → ∀ q, e.request? r = some q → q.isFresh = true → q.HoldsSlot

section Handle
variable {s : Signal} (h : Orderly e sent) (meets : Meets e sent s)
include h meets

theorem Orderly.submits : Orderly e (sent ++ s.submits) where
  booked := h.booked.submits meets.calls
  signals := h.signals
  fits := h.fits
  unsent r q hq unsent := h.unsent r q hq fun old => unsent (List.mem_append_left _ old)
  serves := h.serves
  keeps := h.keeps
  bounded := h.bounded

/-- A call comes to the pool, and is turned away where there is no room. -/
theorem Orderly.call (hs : s = .call r) :
    ∃ arrived, arrived.Sublist [r] ∧ Changes (sent ++ [r]) e arrived (e.handle s) ∧
      ∃ q, (e.handle s).request? r = some q ∧ q.stage ≠ .pending ∧
        ∀ n, q.turnedAway? = some n ↔ (e.pool.arrive r).1 = .refused (.saturated n) := by
  obtain ⟨unsent, made, _⟩ := meets.calls r hs
  obtain ⟨q, hq⟩ := Option.isSome_iff_exists.1 made
  obtain ⟨pending, unreplied⟩ := h.unsent r q hq unsent
  have fits := h.fits r q hq
  obtain ⟨fresh, unasked, _⟩ := fits.early (.inl pending)
  rw [hs]
  exact changes_onCall hq fits.route (List.mem_append_right _ (List.mem_singleton_self r))
    ⟨fresh, unasked⟩ pending unreplied

theorem Orderly.handle :
    ∃ arrived, arrived.Sublist s.submits ∧ Changes (sent ++ s.submits) e arrived (e.handle s) := by
  have submitted := h.submits meets
  cases s with
  | call r =>
      obtain ⟨arrived, self, changes, _⟩ := h.call meets rfl
      exact ⟨arrived, self, changes⟩
  | caller | worker => cases meets.pooling
  | slot r => exact ⟨[], List.Sublist.refl _, changes_onSlot submitted r⟩
  | outcome r => exact ⟨[], List.Sublist.refl _, changes_onOutcome submitted r⟩
  | work r => exact ⟨[], List.Sublist.refl _, changes_onWork submitted (meets.ready r rfl)⟩
  | close d => exact ⟨[], List.Sublist.refl _, changes_onClose submitted d⟩
  | drained d => exact ⟨[], List.Sublist.refl _, changes_onDrained submitted d⟩

end Handle
end EventSourcing.PoolTraffic
