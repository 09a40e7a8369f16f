import Mathlib.Data.List.Nodup
import EventSourcing.Proofs.Engine.Change

/-!
Places in the pool.
Whoever stands in the line of the pool, or has been handed a slot, waits for it, and the callers that
the pool counts as running are those whose work has come to a slot and has not stopped. Nobody has two
places, and no slot is lost.
-/
namespace EventSourcing

namespace Pool

/-- The pool serves its callers: it knows who waits and who runs. Some slots may be on their way from
one caller to the next. -/
structure Serves (p : Pool) (waiting running : Nat → Prop) (underway : Nat) : Prop where
  waits : ∀ r ∈ p.line ++ p.handed, waiting r
  runs : ∀ r, r ∈ p.running ↔ running r
  once : (p.line ++ p.handed ++ p.running).Nodup
  closed : p.closing = true → p.line = []
  slots : p.free + p.handed.length + p.running.length + underway = p.config.slots

namespace Serves
variable {p : Pool} {w w' u u' : Nat → Prop} {n r : Nat}

/-- A slot on its way goes to the head of the line, or is free. -/
theorem handOver (h : p.Serves w u (n + 1)) : p.handOver.2.Serves w u n := by
  have slots := h.slots
  have once := h.once
  have waits := h.waits
  rw [Pool.handOver]
  cases hl : p.line with
  | nil =>
      rw [hl] at once waits
      dsimp only
      refine ⟨waits, h.runs, once, fun _ => rfl, ?_⟩
      dsimp only
      omega
  | cons c rest =>
      have moved : (p.line ++ p.handed).Perm (rest ++ (p.handed ++ [c])) := by
        rw [hl, List.cons_append, ← List.append_assoc]
        exact (List.perm_append_singleton c (rest ++ p.handed)).symm
      dsimp only
      refine ⟨fun r hr => waits r (moved.mem_iff.2 hr), h.runs, ?_, fun hc => ?_, ?_⟩
      · exact (moved.append_right p.running).nodup_iff.1 once
      · have empty := h.closed hc
        rw [hl] at empty
        cases empty
      · dsimp only
        rw [List.length_append, List.length_singleton]
        omega

section Apart
variable (h : p.Serves w u n)
include h

theorem not_running (hr : r ∈ p.line ++ p.handed) : ¬u r := by
  intro runs
  have apart := (List.nodup_append.1 h.once).2.2
  exact apart r hr r ((h.runs r).2 runs) rfl

theorem not_in_line (hr : r ∈ p.handed) : r ∉ p.line := by
  intro hline
  have apart := (List.nodup_append.1 (List.nodup_append.1 h.once).1).2.2
  exact apart r hline r hr rfl

theorem nodup_handed : p.handed.Nodup := (List.nodup_append.1 (List.nodup_append.1 h.once).1).2.1

theorem nodup_running : p.running.Nodup := (List.nodup_append.1 h.once).2.1

theorem nodup_line : p.line.Nodup := (List.nodup_append.1 (List.nodup_append.1 h.once).1).1

theorem congr (waits : ∀ r, w' r ↔ w r) (runs : ∀ r, u' r ↔ u r) : p.Serves w' u' n where
  waits r hr := (waits r).2 (h.waits r hr)
  runs r := (h.runs r).trans (runs r).symm
  once := h.once
  closed := h.closed
  slots := h.slots

end Apart

section Moves
variable (others : ∀ r', r ≠ r' → (w' r' ↔ w r') ∧ (u' r' ↔ u r'))
include others

/-- A slot is taken, by a caller who has no place. -/
theorem seat (h : p.Serves w u (n + 1)) (outside : r ∉ p.line ++ p.handed) (idle : ¬u r)
    (runs' : u' r) : ({ p with running := p.running ++ [r] } : Pool).Serves w' u' n := by
  have slots := h.slots
  refine ⟨fun r' hr' => ?_, fun r' => ?_, ?_, h.closed, ?_⟩
  · have other : r ≠ r' := by
      rintro rfl
      exact outside hr'
    exact (others r' other).1.2 (h.waits r' hr')
  · rw [List.mem_append, List.mem_singleton, h.runs r']
    by_cases hr : r = r'
    · subst hr
      exact iff_of_true (.inr rfl) runs'
    · rw [(others r' hr).2]
      exact or_iff_left (Ne.symm hr)
  · have fresh : r ∉ p.line ++ p.handed ++ p.running := by
      rw [List.mem_append, h.runs r]
      exact not_or.2 ⟨outside, idle⟩
    dsimp only
    rw [← List.append_assoc]
    exact (List.perm_append_singleton r _).nodup_iff.2 (List.nodup_cons.2 ⟨fresh, h.once⟩)
  · dsimp only
    rw [List.length_append, List.length_singleton]
    omega

variable (h : p.Serves w u n)
include h

/-- A caller without a place comes to none. -/
theorem elsewhere (outside : r ∉ p.line ++ p.handed) (idle : ¬u r) (idle' : ¬u' r) :
    p.Serves w' u' n where
  waits r' hr' := by
    have other : r ≠ r' := by
      rintro rfl
      exact outside hr'
    exact (others r' other).1.2 (h.waits r' hr')
  runs r' := by
    by_cases hr : r = r'
    · subst hr
      rw [h.runs r]
      exact iff_of_false idle idle'
    · exact (h.runs r').trans (others r' hr).2.symm
  once := h.once
  closed := h.closed
  slots := h.slots

theorem queue (outside : r ∉ p.line ++ p.handed) (idle : ¬u r) (idle' : ¬u' r) (waits' : w' r)
    (hopen : p.closing = false) : ({ p with line := p.line ++ [r] } : Pool).Serves w' u' n := by
  have same := elsewhere others h outside idle idle'
  refine ⟨fun r' hr' => ?_, same.runs, ?_, fun hc => ?_, h.slots⟩
  · simp only [List.append_assoc, List.mem_append, List.mem_singleton] at hr'
    obtain hr' | rfl | hr' := hr'
    · exact same.waits r' (List.mem_append_left _ hr')
    · exact waits'
    · exact same.waits r' (List.mem_append_right _ hr')
  · have fresh : r ∉ p.line ++ p.handed ++ p.running := by
      rw [List.mem_append, h.runs r]
      exact not_or.2 ⟨outside, idle⟩
    refine (List.Perm.nodup_iff ?_).1 (List.nodup_cons.2 ⟨fresh, h.once⟩)
    simp only [List.append_assoc, List.singleton_append]
    exact List.perm_middle.symm
  · change p.closing = true at hc
    rw [hopen] at hc
    cases hc

theorem leave (slotless : r ∉ p.handed) (idle : ¬u r) (idle' : ¬u' r) :
    (p.leave r).Serves w' u' n := by
  have fewer : (p.line.erase r).Sublist p.line := List.erase_sublist
  have kept : (p.leave r).Serves w u n := by
    refine ⟨fun r' hr' => h.waits r' ?_, h.runs, ?_, fun hc => ?_, h.slots⟩
    · exact (fewer.append_right p.handed).subset hr'
    · exact h.once.sublist ((fewer.append_right _).append_right _)
    · have empty := h.closed hc
      rw [Pool.leave, empty, List.erase_nil]
  refine elsewhere others kept (fun hr => ?_) idle idle'
  obtain hr | hr := List.mem_append.1 hr
  · exact h.nodup_line.not_mem_erase hr
  · exact slotless hr

/-- A slot that was handed over is on its way once more. -/
theorem unhand (hr : r ∈ p.handed) (idle' : ¬u' r) :
    ({ p with handed := p.handed.erase r } : Pool).Serves w' u' (n + 1) := by
  have fewer : (p.handed.erase r).Sublist p.handed := List.erase_sublist
  have slots := h.slots
  have kept : ({ p with handed := p.handed.erase r } : Pool).Serves w u (n + 1) := by
    refine ⟨fun r' hr' => h.waits r' ?_, h.runs, ?_, h.closed, ?_⟩
    · exact (fewer.append_left p.line).subset hr'
    · exact h.once.sublist ((fewer.append_left _).append_right _)
    · have some := List.length_pos_of_mem hr
      dsimp only
      rw [List.length_erase_of_mem hr]
      omega
  refine elsewhere others kept (fun hr' => ?_) (h.not_running (List.mem_append_right _ hr)) idle'
  obtain hr' | hr' := List.mem_append.1 hr'
  · exact h.not_in_line hr hr'
  · exact h.nodup_handed.not_mem_erase hr'

theorem seatFree (outside : r ∉ p.line ++ p.handed) (idle : ¬u r) (runs' : u' r) (some : p.free ≠ 0) :
    ({ p with free := p.free - 1, running := p.running ++ [r] } : Pool).Serves w' u' n := by
  have slots := h.slots
  have taken : ({ p with free := p.free - 1 } : Pool).Serves w u (n + 1) := by
    refine ⟨h.waits, h.runs, h.once, h.closed, ?_⟩
    dsimp only
    omega
  exact seat others taken outside idle runs'

theorem take (hr : r ∈ p.handed) (runs' : u' r) : (p.take r).Serves w' u' n := by
  have idle := h.not_running (List.mem_append_right _ hr)
  have freed := unhand (fun _ _ => ⟨.rfl, .rfl⟩) h hr idle
  refine seat others freed (fun hr' => ?_) idle runs'
  obtain hr' | hr' := List.mem_append.1 hr'
  · exact h.not_in_line hr hr'
  · exact h.nodup_handed.not_mem_erase hr'

theorem decline (hr : r ∈ p.handed) (idle' : ¬u' r) : (p.decline r).2.Serves w' u' n :=
  (unhand others h hr idle').handOver

theorem release (runs : u r) (idle' : ¬u' r) : (p.release r).2.Serves w' u' n := by
  have hr := (h.runs r).2 runs
  have slots := h.slots
  have freed : ({ p with running := p.running.erase r } : Pool).Serves w' u' (n + 1) := by
    refine ⟨fun r' hr' => ?_, fun r' => ?_, ?_, h.closed, ?_⟩
    · have other : r ≠ r' := by
        rintro rfl
        exact h.not_running hr' runs
      exact (others r' other).1.2 (h.waits r' hr')
    · rw [h.nodup_running.mem_erase_iff, h.runs r']
      by_cases same : r = r'
      · subst same
        exact iff_of_false (fun h => h.1 rfl) idle'
      · rw [(others r' same).2]
        exact and_iff_right (Ne.symm same)
    · exact h.once.sublist (List.erase_sublist.append_left _)
    · have some := List.length_pos_of_mem hr
      dsimp only
      rw [List.length_erase_of_mem hr]
      omega
  exact freed.handOver

end Moves
end Serves

section Arrival
variable {p p' : Pool} {r : Nat}

theorem arrive_inLine (h : p.arrive r = (.inLine, p')) :
    p.closing = false ∧ p' = { p with line := p.line ++ [r] } := by
  rw [arrive] at h
  split at h
  · cases h
  · rename_i hopen
    split at h
    · cases h
    · split at h
      · cases h
        exact ⟨by simpa using hopen, rfl⟩
      · cases h

theorem arrive_admitted (h : p.arrive r = (.admitted, p')) :
    p.free ≠ 0 ∧ p' = { p with free := p.free - 1, running := p.running ++ [r] } := by
  rw [arrive] at h
  split at h
  · cases h
  · split at h
    · cases h
    · split at h
      · cases h
      · rename_i free
        cases h
        exact ⟨free, rfl⟩

end Arrival
end Pool

namespace Request
variable {ρ : Type} {q : Request ρ}

theorem not_inPlace_of_isEarly (h : q.isEarly) : ¬q.InPlace := by
  rintro ⟨running | ⟨o, overran⟩, _⟩
  · simp [isEarly, running] at h
  · simp [isEarly, overran] at h

theorem InPlace.not_isEarly (h : q.InPlace) : ¬q.isEarly := fun early =>
  not_inPlace_of_isEarly early h

theorem not_inPlace_close (q : Request ρ) (o : Ending ρ) : ¬(q.close o).InPlace := by
  rintro ⟨running | ⟨o', overran⟩, _⟩
  · cases running
  · cases overran

end Request

/-- Whatever way a request moves, the pool goes on to serve its callers. -/
theorem Shift.serves {ρ : Type} {now r : Nat} {p p' : Pool} {q q' : Request ρ}
    {w w' u u' : Nat → Prop} (shift : Shift now r p q p' q') (h : p.Serves w u 0)
    (others : ∀ r', r ≠ r' → (w' r' ↔ w r') ∧ (u' r' ↔ u r')) (waits : w r ↔ q.stage = .waiting)
    (works : u r ↔ q.InPlace) (waits' : w' r ↔ q'.stage = .waiting) (works' : u' r ↔ q'.InPlace) :
    p'.Serves w' u' 0 := by
  have stays (stage : q'.stage = .waiting ↔ q.stage = .waiting) (place : q'.InPlace ↔ q.InPlace) :
      p.Serves w' u' 0 := by
    refine h.congr (fun r' => ?_) fun r' => ?_
    · by_cases hr : r = r'
      · rw [← hr, waits', waits, stage]
      · exact (others r' hr).1
    · by_cases hr : r = r'
      · rw [← hr, works', works, place]
      · exact (others r' hr).2
  have outside (hr : q.stage ≠ .waiting) : r ∉ p.line ++ p.handed := by
    intro hmem
    exact hr (waits.1 (h.waits r hmem))
  have idle (early : q.isEarly) : ¬u r := by
    rw [works]
    exact q.not_inPlace_of_isEarly early
  have leaves {o : Ending ρ} (closed : q' = q.close o) : ¬u' r := by
    rw [works', closed]
    exact q.not_inPlace_close o
  have sits (seat : Seat r p q p') (placed : q'.InPlace) : p'.Serves w' u' 0 := by
    cases seat with
    | free pending arrives =>
        obtain ⟨some, rfl⟩ := Pool.arrive_admitted arrives
        exact h.seatFree others (outside (by simp [pending])) (idle (.inl pending))
          (works'.2 placed) some
    | handed waiting has => exact h.take others has (works'.2 placed)
  cases shift with
  | noted | replied => exact stays .rfl .rfl
  | slept wake wakeable rest place =>
      exact stays .rfl (iff_of_true ⟨place.1, rfl⟩ place)
  | overran l running goes late =>
      refine stays (iff_of_false (by simp) (by simp [running])) ?_
      exact iff_of_true ⟨.inr ⟨_, rfl⟩, goes⟩ ⟨.inl running, goes⟩
  | skipped l pending late | refused pending never arrives =>
      exact h.elsewhere others (outside (by simp [pending])) (idle (.inl pending)) (leaves rfl)
  | queued pending arrives =>
      obtain ⟨hopen, rfl⟩ := Pool.arrive_inLine arrives
      refine h.queue others (outside (by simp [pending])) (idle (.inl pending)) ?_ (waits'.2 rfl) hopen
      rw [works']
      exact Request.not_inPlace_of_isEarly (.inr rfl)
  | expired l waiting late slotless =>
      exact h.leave others slotless (idle (.inr waiting)) (leaves rfl)
  | dismissed waiting never closing slotless =>
      refine h.elsewhere others (fun hr => ?_) (idle (.inr waiting)) (leaves rfl)
      rw [h.closed closing] at hr
      exact slotless hr
  | declined waiting never closing has => exact h.decline others has (leaves rfl)
  | seated fresh seat early | seatedLate fresh seat late =>
      exact sits seat ⟨.inl rfl, q.hasEnded_of_isFresh fresh⟩
  | ended o place how =>
      refine h.release others (works.2 place) ?_
      rw [works']
      rintro ⟨_, goes⟩
      cases goes
  | finished o how =>
      have stopped : q.stage ≠ .waiting ∧ ¬q.InPlace := by
        obtain ⟨running, ended⟩ | ⟨overran, ended⟩ := how
        · refine ⟨by simp [running], fun place => ?_⟩
          have goes := place.2
          rw [Request.hasEnded, ended] at goes
          cases goes
        · refine ⟨by simp [overran], fun place => ?_⟩
          rw [place.2] at ended
          cases ended
      exact h.elsewhere others (outside stopped.1) (by rw [works]; exact stopped.2) (leaves rfl)

namespace Engine
variable {ρ : Type} {sent : List Nat} {e e' : Engine ρ} {r : Nat} {q : Request ρ}

def Waits (e : Engine ρ) (r : Nat) : Prop := e.stage? r = some .waiting

def Works (e : Engine ρ) (r : Nat) : Prop := ∃ q, e.request? r = some q ∧ q.InPlace

/-- The pool knows who waits for a slot and whose work has one. -/
def Seated (e : Engine ρ) : Prop := e.pool.Serves e.Waits e.Works 0

theorem waits_iff (hq : e.request? r = some q) : e.Waits r ↔ q.stage = .waiting := by
  rw [Waits, stage?_eq hq, Option.some.injEq]

theorem works_iff (hq : e.request? r = some q) : e.Works r ↔ q.InPlace := by
  constructor
  · rintro ⟨q', hq', place⟩
    rw [hq, Option.some.injEq] at hq'
    rwa [hq']
  · intro place
    exact ⟨q, hq, place⟩

theorem elsewhere_modify {r' : Nat} (hr : r ≠ r') (f : Request ρ → Request ρ) :
    ((e.modify r f).Waits r' ↔ e.Waits r') ∧ ((e.modify r f).Works r' ↔ e.Works r') := by
  rw [Waits, stage?_modify_of_ne hr, Works, request?_modify, if_neg hr]
  exact ⟨.rfl, .rfl⟩

/-- A request may change in what does not matter for its place. -/
theorem Seated.modify (h : e.Seated) (r : Nat) {f : Request ρ → Request ρ}
    (stage : ∀ q, (f q).stage = q.stage) (work : ∀ q, (f q).work = q.work) :
    (e.modify r f).Seated := by
  refine Pool.Serves.congr h (fun r' => ?_) fun r' => ?_
  · by_cases hr : r = r'
    · subst hr
      cases hq : e.request? r with
      | none => simp [Waits, stage?, request?_modify, hq]
      | some q => rw [waits_iff (request?_modify_self hq f), waits_iff hq, stage]
    · exact (elsewhere_modify hr f).1
  · by_cases hr : r = r'
    · subst hr
      cases hq : e.request? r with
      | none => simp [Works, request?_modify, hq]
      | some q =>
          rw [works_iff (request?_modify_self hq f), works_iff hq, Request.InPlace, stage,
            Request.hasEnded, work, Request.InPlace, Request.hasEnded]
    · exact (elsewhere_modify hr f).2

theorem Change.seated (change : Change sent e e') (h : e.Seated) : e'.Seated := by
  cases change with
  | aside | signal => exact h
  | ask r => exact h.modify r (fun _ => rfl) fun _ => rfl
  | close =>
      refine ⟨fun r hr => h.waits r (List.mem_append_right _ hr), h.runs, ?_, fun _ => rfl, h.slots⟩
      exact h.once.sublist ((List.sublist_append_right _ _).append_right _)
  | cancelAll => exact ⟨h.waits, h.runs, h.once, h.closed, h.slots⟩
  | shift f hq called shift =>
      exact shift.serves h (fun r' hr => elsewhere_modify hr f) (waits_iff hq) (works_iff hq)
        (waits_iff (request?_modify_self hq f)) (works_iff (request?_modify_self hq f))

end Engine
end EventSourcing
