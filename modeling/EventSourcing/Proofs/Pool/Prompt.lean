import EventSourcing.Proofs.Pool.Handled

/-!
Deadlines of the callers of a pool.
Time does not pass over what is due. So each caller of the pool looks for its slot, or at its work,
when its time is up, and at once where there is news for it; it is told a timeout at its deadline
and never later, and work is asked to stop only for its own caller or for the whole pool.
-/
namespace EventSourcing

namespace Request
variable {ρ : Type}

variable {q : Request ρ} {now τ : Nat}

/-- The caller has been told at its deadline that its time is up. -/
def TimedOut (q : Request ρ) : Prop :=
  q.answer = some (q.called + q.poolLimit, .error (.pool (.timeout q.poolLimit)))

/-- A caller of the pool is told in time, and its work is asked to stop when it has been told that
its time is up, or with all work. -/
structure Treated (q : Request ρ) (all : Bool) : Prop where
  limit : q.stage ≠ .pending → q.poolLimit = q.limit.getD 0
  unreplied : q.stage ≠ .over → q.answer = none
  replied : q.stage = .over → ∃ τ o, q.answer = some (τ, o) ∧ ∀ D, q.deadline? = some D → τ ≤ D
  asked : q.cancelled = true → all = true ∨ q.TimedOut
  owed : q.stage = .over → q.cancelled = true → q.hasEnded = true ∨ q.TimedOut
  all : all = true → q.HoldsSlot → q.cancelled = true

theorem HoldsSlot.not_ended (h : q.HoldsSlot) (o : Ending ρ) : q.work ≠ .ended o := by
  intro ended
  have goes := h.1
  rw [hasEnded, ended] at goes
  cases goes

theorem overdue_of_deadline (h : q.deadline? = some τ) : q.overdue now = true ↔ τ ≤ now := by
  rw [overdue, h]
  exact decide_eq_true_iff

theorem exists_deadline_of_overdue (late : q.overdue now = true) :
    ∃ τ, q.deadline? = some τ ∧ τ ≤ now := by
  cases h : q.deadline? with
  | none =>
      rw [overdue, h] at late
      cases late
  | some τ => exact ⟨τ, rfl, (overdue_of_deadline h).1 late⟩

/-- A caller whose time is up, and was not before, is at its deadline. -/
theorem eq_of_overdue (limit : q.poolLimit = q.limit.getD 0) (late : q.overdue now = true)
    (soon : ∀ τ, q.deadline? = some τ → now ≤ τ) : now = q.called + q.poolLimit := by
  obtain ⟨τ, hτ, past⟩ := exists_deadline_of_overdue late
  have before := soon τ hτ
  obtain ⟨l, hl, rfl⟩ := Option.map_eq_some_iff.1 hτ
  rw [limit, hl, Option.getD_some]
  omega

theorem treated_replied {o : Ending ρ} {all : Bool} (limit : q.poolLimit = q.limit.getD 0)
    (soon : ∀ τ, q.deadline? = some τ → now ≤ τ)
    (why : q.cancelled = true → (all = true ∧ q.hasEnded = true) ∨ (q.replied now o).TimedOut) :
    (q.replied now o).Treated all where
  limit _ := limit
  unreplied waits := absurd rfl waits
  replied _ := ⟨now, o, rfl, soon⟩
  asked asked := (why asked).imp_left And.left
  owed _ asked := (why asked).imp_left And.right
  all _ holds := by
    obtain running | ⟨_, asked⟩ := holds.2
    · cases running
    · exact asked

theorem timedOut_replied (limit : q.poolLimit = q.limit.getD 0) (late : q.overdue now = true)
    (soon : ∀ τ, q.deadline? = some τ → now ≤ τ) :
    (q.replied now (.error (.pool (.timeout q.poolLimit)))).TimedOut := by
  have time := eq_of_overdue limit late soon
  rw [time]
  rfl

theorem IsNew.treated (h : q.IsNew) (all : Bool) : q.Treated all := by
  obtain ⟨_, _, _, _, rfl⟩ := h
  refine ⟨fun came => absurd rfl came, fun _ => rfl, (by simp), (by simp), (by simp), ?_⟩
  exact fun _ holds => absurd rfl holds.not_pending

end Request

namespace PoolTraffic
open Engine
variable {ρ : Type} {sent : List Nat} {e e' e₀ : Engine ρ} {t : Turn ρ} {ts : List (Turn ρ)}
  {r d : Nat} {q q' : Request ρ} {due : Signal → Nat → Prop} {c : PoolConfig}

/-- Whoever waits for its slot, or for its work, looks for it at its deadline, and at once where
there is news. -/
structure Prompt (e : Engine ρ) (due : Signal → Nat → Prop) : Prop where
  ahead : ∀ s τ, due s τ → e.now ≤ τ
  waits : ∀ r q, e.request? r = some q → q.stage = .waiting →
    ∀ τ, q.deadline? = some τ → due (.slot r) τ
  served : ∀ r q, e.request? r = some q → q.stage = .waiting →
    r ∈ e.pool.handed ∨ e.pool.closing = true → due (.slot r) e.now
  runs : ∀ r q, e.request? r = some q → q.stage = .running →
    ∀ τ, q.deadline? = some τ → due (.outcome r) τ
  done : ∀ r q, e.request? r = some q → q.stage = .running → q.hasEnded = true →
    due (.outcome r) e.now
  past : ∀ r q τ o, e.request? r = some q → q.answer = some (τ, o) → τ ≤ e.now
  treated : ∀ r q, e.request? r = some q → q.Treated e.pool.cancelled

theorem prompt_ofWorld (w : World) (c : PoolConfig) :
    Prompt (ofWorld (ρ := ρ) w c) (ofWorld (ρ := ρ) w c).DueAt where
  ahead s τ due := by
    obtain ⟨_, hd, _⟩ := due
    cases hd
  waits r q hq := by cases hq
  served r q hq := by cases hq
  runs r q hq := by cases hq
  done r q hq := by cases hq
  past r q τ o hq := by cases hq
  treated r q hq := by cases hq

theorem Prompt.passes (h : Prompt e e.DueAt) (passes : Passes e e' due) : Prompt e' due := by
  have now (s : Signal) (notified : e.DueAt s e.now) : e'.now = e.now := by
    have onTime := passes.onTime s e.now notified
    have later := passes.now
    omega
  have old {r : Nat} {q : Request ρ} (hq : e'.request? r = some q) (came : q.stage ≠ .pending) :
      e.request? r = some q := by
    refine (passes.new r q hq).resolve_right ?_
    rintro ⟨_, _, _, _, rfl⟩
    exact came rfl
  refine ⟨fun s τ hdue => ?_, fun r q hq waiting τ hτ => ?_, fun r q hq waiting notified => ?_,
    fun r q hq running τ hτ => ?_, fun r q hq running ended => ?_, fun r q τ o hq replied => ?_,
    fun r q hq => ?_⟩
  · obtain before | new := passes.later s τ hdue
    · have onTime := passes.onTime s τ before
      have ahead := h.ahead s τ before
      omega
    · exact new
  · exact passes.stays _ _ (h.waits r q (old hq (by simp [waiting])) waiting τ hτ)
  · rw [passes.pool] at notified
    have hears := h.served r q (old hq (by simp [waiting])) waiting notified
    rw [now _ hears]
    exact passes.stays _ _ hears
  · exact passes.stays _ _ (h.runs r q (old hq (by simp [running])) running τ hτ)
  · have hears := h.done r q (old hq (by simp [running])) running ended
    rw [now _ hears]
    exact passes.stays _ _ hears
  · obtain before | ⟨_, _, _, _, rfl⟩ := passes.new r q hq
    · exact Nat.le_trans (h.past r q τ o before replied) passes.now
    · cases replied
  · rw [passes.pool]
    obtain before | new := passes.new r q hq
    · exact h.treated r q before
    · exact new.treated _

/-- A caller that looks for a slot: its work has not begun, and its time is not over. -/
structure Looks (q : Request ρ) (now : Nat) : Prop where
  limit : q.poolLimit = q.limit.getD 0
  soon : ∀ τ, q.deadline? = some τ → now ≤ τ
  fresh : q.isFresh = true
  unasked : q.cancelled = false
  unreplied : q.answer = none

section Turns
variable (order : Orderly t.engine sent) (prompt : Prompt t.engine t.DueAt)
include order prompt

theorem Seeks.looks {q₁ : Request ρ} (seeks : Seeks t r q q₁) (hq : t.engine.request? r = some q) :
    Looks q₁ t.time := by
  have fits := order.fits r q hq
  have treated := prompt.treated r q hq
  cases seeks with
  | comes hs pending =>
      obtain ⟨fresh, unasked, _⟩ := fits.early (.inl pending)
      refine ⟨rfl, fun τ hτ => ?_, fresh, unasked, treated.unreplied (by simp [pending])⟩
      obtain ⟨l, _, rfl⟩ := Option.map_eq_some_iff.1 hτ
      exact Nat.le_add_right ..
  | waits hs waiting =>
      obtain ⟨fresh, unasked, _⟩ := fits.early (.inr waiting)
      refine ⟨treated.limit (by simp [waiting]), fun τ hτ => ?_, fresh, unasked,
        treated.unreplied (by simp [waiting])⟩
      exact prompt.ahead _ τ (prompt.waits r q hq waiting τ hτ)

theorem Becomes.treated (h : Becomes t r q q') (hq : t.engine.request? r = some q)
    (kept : t.engine.pool.cancelled = true → t.after.pool.cancelled = true)
    (all : t.after.pool.cancelled = true → t.engine.pool.cancelled = true ∨
      t.signal.concerns = none ∧ (q.HoldsSlot → q'.cancelled = true)) :
    q'.Treated t.after.pool.cancelled := by
  have old := prompt.treated r q hq
  have soon (running : q.stage = .running) (τ : Nat) (hτ : q.deadline? = some τ) : t.time ≤ τ :=
    prompt.ahead _ τ (prompt.runs r q hq running τ hτ)
  have fits := order.fits r q hq
  cases h with
  | left =>
      refine ⟨old.limit, old.unreplied, old.replied, fun asked => (old.asked asked).imp_left kept,
        old.owed, fun gaveUp holds => ?_⟩
      obtain before | new := all gaveUp
      · exact old.all before holds
      · exact new.2 holds
  | asked closing holds gaveUp =>
      refine ⟨old.limit, old.unreplied, old.replied, fun _ => .inl gaveUp, fun isOver _ => ?_,
        fun _ _ => rfl⟩
      obtain running | ⟨_, asked⟩ := holds.2
      · simp [running] at isOver
      · exact old.owed isOver asked
  | worked hs holds begun w ends due =>
      refine ⟨old.limit, old.unreplied, old.replied, fun asked => (old.asked asked).imp_left kept,
        fun isOver asked => .inr ?_, fun gaveUp _ => ?_⟩
      · have goes := holds.1
        obtain ended | timedOut := old.owed isOver asked
        · rw [ended] at goes
          cases goes
        · exact timedOut
      · obtain before | new := all gaveUp
        · exact old.all before holds
        · exact new.2 holds
  | answered hs running done =>
      refine Request.treated_replied (old.limit (by simp [running])) (soon running) fun asked => ?_
      refine .inl ⟨kept ((old.asked asked).resolve_right fun timedOut => ?_), ?_⟩
      · rw [Request.TimedOut, old.unreplied (by simp [running])] at timedOut
        cases timedOut
      · rw [Request.hasEnded, done]
  | overran hs running goes late =>
      have limit := old.limit (by simp [running])
      exact Request.treated_replied (q := { q with cancelled := true }) limit (soon running)
        fun _ => .inr (Request.timedOut_replied (q := { q with cancelled := true }) limit late
          (soon running))
  | refused hs pending arrives =>
      have looks := (Seeks.comes hs pending).looks order prompt hq
      refine Request.treated_replied rfl looks.soon fun asked => ?_
      cases looks.unasked.symm.trans asked
  | queued hs pending isOpen early due =>
      have looks := (Seeks.comes hs pending).looks order prompt hq
      refine ⟨fun _ => rfl, fun _ => looks.unreplied, by simp, fun asked => ?_, by simp,
        fun _ holds => absurd rfl holds.not_waiting⟩
      cases looks.unasked.symm.trans asked
  | seated seeks isOpen early due =>
      have looks := seeks.looks order prompt hq
      refine ⟨fun _ => looks.limit, fun _ => looks.unreplied, by simp,
        fun asked => .inl (kept asked), by simp, fun gaveUp _ => ?_⟩
      obtain before | ⟨nobody, _⟩ := all gaveUp
      · exact before
      · cases seeks with
        | comes hs | waits hs =>
            rw [hs] at nobody
            cases nobody
  | @seatedLate q₁ seeks isOpen late =>
      have looks := seeks.looks order prompt hq
      exact Request.treated_replied (q := { q₁ with stage := .running, cancelled := true }) looks.limit
        looks.soon fun _ => .inr (Request.timedOut_replied
          (q := { q₁ with stage := .running, cancelled := true }) looks.limit late looks.soon)
  | expired seeks isOpen late =>
      have looks := seeks.looks order prompt hq
      refine Request.treated_replied looks.limit looks.soon fun asked => ?_
      cases looks.unasked.symm.trans asked
  | dismissed hs waiting closing =>
      have looks := (Seeks.waits hs waiting).looks order prompt hq
      refine Request.treated_replied looks.limit looks.soon fun asked => ?_
      cases looks.unasked.symm.trans asked

omit order prompt in
/-- Whoever waits after a turn waits as before, or has come in the turn. -/
theorem Becomes.waits (h : Becomes t r q q') (waiting : q'.stage = .waiting) :
    (q' = q ∧ (t.signal = .slot r → t.engine.pool.closing = false ∧ r ∉ t.engine.pool.handed ∧
      q.overdue t.time = false)) ∨
    t.signal = .call r ∧ q.stage = .pending ∧ t.engine.pool.closing = false ∧
      (∀ τ, q'.deadline? = some τ → t.after.DueAt (.slot r) τ) := by
  cases h with
  | left _ _ slot => exact .inl ⟨rfl, fun hs => slot hs waiting⟩
  | asked _ holds | worked _ holds => exact absurd waiting holds.not_waiting
  | answered | overran | refused | seated | seatedLate | expired | dismissed => cases waiting
  | queued hs pending isOpen early due =>
      refine .inr ⟨hs, pending, isOpen, fun τ hτ => ?_⟩
      obtain ⟨l, hl, rfl⟩ := Option.map_eq_some_iff.1 hτ
      exact due l hl

/-- Whoever waits for its work after a turn did so before, or has come to its slot in the turn. -/
theorem Becomes.runs (h : Becomes t r q q') (hq : t.engine.request? r = some q)
    (running : q'.stage = .running) :
    (q.stage = .running ∧ q'.deadline? = q.deadline? ∧
      (t.signal = .outcome r → q.hasEnded = false ∧ q.overdue t.time = false) ∧
      (q'.hasEnded = true → q.hasEnded = true ∨ t.after.DueAt (.outcome r) t.time)) ∨
    (q'.isFresh = true ∧ ∀ τ, q'.deadline? = some τ → t.after.DueAt (.outcome r) τ) := by
  cases h with
  | left _ _ _ outcome => exact .inl ⟨running, rfl, fun hs => outcome hs running, .inl⟩
  | asked closing =>
      refine .inl ⟨running, rfl, fun hs => ?_, .inl⟩
      obtain ⟨d, hs'⟩ | ⟨d, hs'⟩ := closing <;> cases hs.symm.trans hs'
  | worked hs holds begun w ends due =>
      refine .inl ⟨running, rfl, fun hs' => ?_, fun ended => .inr ?_⟩
      · cases hs.symm.trans hs'
      · cases w with
        | ended o => exact due running o rfl
        | _ => cases ended
  | answered | overran | refused | queued | seatedLate | expired | dismissed => cases running
  | seated seeks isOpen early due => exact .inr ⟨(seeks.looks order prompt hq).fresh, due⟩

omit order prompt in
/-- Who is told something in a turn is told it then. -/
theorem Becomes.replied (h : Becomes t r q q') :
    q'.answer = q.answer ∨ ∃ o, q'.answer = some (t.time, o) := by
  cases h with
  | left | asked | worked | queued => exact .inl rfl
  | seated seeks => cases seeks <;> exact .inl rfl
  | answered | overran | refused | seatedLate | expired | dismissed => exact .inr ⟨_, rfl⟩

section Kept
variable (handled : Handled t)
include handled

omit order prompt in
theorem Handled.kept {s : Signal} {τ : Nat} (due : t.DueAt s τ) :
    t.signal = s ∧ t.time = τ ∨ t.after.DueAt s τ := due.imp_right (handled.stays s τ)

omit order in
/-- Whoever waits for a slot looks for it at its deadline. -/
theorem waits_after (hq' : t.after.request? r = some q') (waiting : q'.stage = .waiting) (τ : Nat)
    (hτ : q'.deadline? = some τ) : t.after.DueAt (.slot r) τ := by
  obtain ⟨q, hq, becomes⟩ := handled.was hq'
  obtain ⟨rfl, idle⟩ | ⟨_, _, _, due⟩ := becomes.waits waiting
  · obtain ⟨hs, rfl⟩ | due := handled.kept (prompt.waits r q' hq waiting τ hτ)
    · have early := (idle hs).2.2
      rw [(Request.overdue_of_deadline hτ).2 (Nat.le_refl _)] at early
      cases early
    · exact due
  · exact due τ hτ

omit order in
/-- News stays for whoever goes on waiting. -/
theorem notified_after (hq : t.engine.request? r = some q) (waiting : q.stage = .waiting)
    (idle : t.signal = .slot r → t.engine.pool.closing = false ∧ r ∉ t.engine.pool.handed)
    (notified : r ∈ t.engine.pool.handed ∨ t.engine.pool.closing = true) :
    t.after.DueAt (.slot r) t.time := by
  obtain ⟨hs, _⟩ | due := handled.kept (prompt.served r q hq waiting notified)
  · obtain ⟨isOpen, slotless⟩ := idle hs
    obtain has | closing := notified
    · exact absurd has slotless
    · cases isOpen.symm.trans closing
  · exact due

/-- Whoever goes on waiting hears at once of a slot that it is given, and of a pool that closes. -/
theorem served_if_stays (hq : t.engine.request? r = some q) (waiting : q.stage = .waiting)
    (idle : t.signal = .slot r → t.engine.pool.closing = false ∧ r ∉ t.engine.pool.handed)
    (notified : r ∈ t.after.pool.handed ∨ t.after.pool.closing = true) :
    t.after.DueAt (.slot r) t.time := by
  have old := notified_after prompt handled hq waiting idle
  obtain has | closing := notified
  · obtain before | due | none := handled.handed r has
    · exact old (.inl before)
    · exact due
    · cases none.symm.trans hq
  · obtain before | ⟨_, replied⟩ := handled.shuts closing
    · exact old (.inr before)
    · cases closing : t.engine.pool.closing with
      | true => exact old (.inr closing)
      | false =>
          have place := order.keeps closing r ((waits_iff hq).2 waiting)
          obtain line | has := List.mem_append.1 place
          · exact (replied r line).resolve_right (by simp [hq])
          · exact old (.inl has)

omit prompt in
/-- Whoever comes to wait is given a slot only with news of it. -/
theorem served_if_comes (hq : t.engine.request? r = some q) (hs : t.signal = .call r)
    (pending : q.stage = .pending) (isOpen : t.engine.pool.closing = false)
    (notified : r ∈ t.after.pool.handed ∨ t.after.pool.closing = true) :
    t.after.DueAt (.slot r) t.time := by
  obtain has | closing := notified
  · obtain before | due | none := handled.handed r has
    · have waits := order.serves.waits r (List.mem_append_right _ before)
      rw [waits_iff hq, pending] at waits
      cases waits
    · exact due
    · cases none.symm.trans hq
  · obtain before | ⟨⟨d, hs'⟩, _⟩ := handled.shuts closing
    · cases isOpen.symm.trans before
    · cases hs.symm.trans hs'

/-- Whoever waits for its work looks at it at its deadline. -/
theorem runs_after (hq' : t.after.request? r = some q') (running : q'.stage = .running) (τ : Nat)
    (hτ : q'.deadline? = some τ) : t.after.DueAt (.outcome r) τ := by
  obtain ⟨q, hq, becomes⟩ := handled.was hq'
  obtain ⟨before, same, idle, _⟩ | ⟨_, due⟩ := becomes.runs order prompt hq running
  · rw [same] at hτ
    obtain ⟨hs, rfl⟩ | due := handled.kept (prompt.runs r q hq before τ hτ)
    · have early := (idle hs).2
      rw [(Request.overdue_of_deadline hτ).2 (Nat.le_refl _)] at early
      cases early
    · exact due
  · exact due τ hτ

/-- Whoever waits for its work hears of the end at once. -/
theorem done_after (hq' : t.after.request? r = some q') (running : q'.stage = .running)
    (ended : q'.hasEnded = true) : t.after.DueAt (.outcome r) t.time := by
  obtain ⟨q, hq, becomes⟩ := handled.was hq'
  obtain ⟨before, _, idle, new⟩ | ⟨fresh, _⟩ := becomes.runs order prompt hq running
  · obtain ended | due := new ended
    · obtain ⟨hs, _⟩ | due := handled.kept (prompt.done r q hq before ended)
      · cases ended.symm.trans (idle hs).1
      · exact due
    · exact due
  · rw [q'.hasEnded_of_isFresh fresh] at ended
    cases ended

end Kept

theorem Prompt.handled (handled : Handled t) : Prompt t.after t.after.DueAt where
  ahead s τ due := by
    rw [handled.now]
    obtain before | new := handled.later s τ due
    · exact prompt.ahead s τ (.inr before)
    · exact new
  waits _ _ hq' waiting := waits_after prompt handled hq' waiting
  served r q' hq' waiting notified := by
    rw [handled.now]
    obtain ⟨q, hq, becomes⟩ := handled.was hq'
    obtain ⟨rfl, idle⟩ | ⟨hs, pending, isOpen, _⟩ := becomes.waits waiting
    · refine served_if_stays order prompt handled hq waiting (fun hs => ?_) notified
      exact ⟨(idle hs).1, (idle hs).2.1⟩
    · exact served_if_comes order handled hq hs pending isOpen notified
  runs _ _ hq' running := runs_after order prompt handled hq' running
  done r q' hq' running ended := by
    rw [handled.now]
    exact done_after order prompt handled hq' running ended
  past r q' τ o hq' replied := by
    rw [handled.now]
    obtain ⟨q, hq, becomes⟩ := handled.was hq'
    obtain same | ⟨o', new⟩ := becomes.replied
    · exact prompt.past r q τ o hq (same.symm.trans replied)
    · cases new.symm.trans replied
      exact Nat.le_refl _
  treated r q' hq' := by
    obtain ⟨q, hq, becomes⟩ := handled.was hq'
    refine becomes.treated order prompt hq handled.cancelled fun gaveUp => ?_
    refine (handled.givesUp gaveUp).imp_right fun given => ⟨?_, fun holds => ?_⟩
    · obtain ⟨⟨⟨d, hs⟩, _⟩ | ⟨d, _, hs, _⟩, _⟩ := given <;> rw [hs] <;> rfl
    · obtain ⟨q₁, hq₁, asked⟩ := given.2 r ((order.serves.runs r).2 ⟨q, hq, holds⟩)
      cases hq₁.symm.trans hq'
      exact asked

end Turns
end PoolTraffic
end EventSourcing
