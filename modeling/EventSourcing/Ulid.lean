/-!
Sortable identifiers of 128 bits.
The high 48 bits count milliseconds and the low 80 bits are random, so identifiers drawn later
compare greater as long as the clock does not go back.
-/
namespace EventSourcing

structure Ulid where
  toNat : Nat
  isLt : toNat < 0x100000000000000000000000000000000 := by omega
  deriving DecidableEq

namespace Ulid

/-- The number of identifiers. -/
def size : Nat := 0x100000000000000000000000000000000

/-- The number of random parts. -/
def randomSize : Nat := 0x100000000000000000000

/-- The number of times. -/
def millisSize : Nat := 0x1000000000000

def nil : Ulid := ⟨0, by decide⟩

instance : Inhabited Ulid := ⟨nil⟩
instance : LT Ulid := ⟨fun a b => a.toNat < b.toNat⟩
instance : LE Ulid := ⟨fun a b => a.toNat ≤ b.toNat⟩
instance (a b : Ulid) : Decidable (a < b) := inferInstanceAs (Decidable (a.toNat < b.toNat))
instance (a b : Ulid) : Decidable (a ≤ b) := inferInstanceAs (Decidable (a.toNat ≤ b.toNat))

theorem ext_toNat {a b : Ulid} (h : a.toNat = b.toNat) : a = b := by
  cases a; cases b; cases h; rfl

/-- The identifier of a number, of which the low 128 bits count. -/
def ofNat (n : Nat) : Ulid := ⟨n % size, Nat.mod_lt _ (by decide)⟩

/-- The identifier with the low 48 bits of a time and the low 80 bits of a random number. -/
def ofParts (ms random : Nat) : Ulid := ofNat (ms % millisSize * randomSize + random % randomSize)

def millis (u : Ulid) : Nat := u.toNat / randomSize

def random (u : Ulid) : Nat := u.toNat % randomSize

/-- The next identifier with the same time, unless the random bits are all ones. -/
def increment? (u : Ulid) : Option Ulid :=
  if h : u.toNat % randomSize = randomSize - 1 then none
  else some ⟨u.toNat + 1, by
    have := u.isLt
    simp only [randomSize] at h
    omega⟩

theorem lt_of_increment? {u v : Ulid} (h : u.increment? = some v) : u < v := by
  unfold increment? at h
  split at h
  · cases h
  · cases h
    exact Nat.lt_succ_self _

theorem increment?_eq_none {u : Ulid} : u.increment? = none ↔ u.random = randomSize - 1 := by
  unfold increment? random
  split <;> simp_all

end Ulid
end EventSourcing
