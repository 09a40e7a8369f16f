/-!
Finite maps kept as a list of entries.
Keys stand in the order in which they were first put, so listing the entries is
part of the meaning and not an accident of a hash.

The lemmas give the entry found after `put`, `erase` and `modify`.
-/
namespace EventSourcing

/-- A finite map as its entries, oldest key first. Only the first entry of a key counts. -/
structure Assoc (κ ν : Type) where
  entries : List (κ × ν) := []

namespace Assoc
variable {κ ν : Type} [DecidableEq κ]

instance : EmptyCollection (Assoc κ ν) := ⟨⟨[]⟩⟩
instance : Inhabited (Assoc κ ν) := ⟨⟨[]⟩⟩

/-- The value in the first entry for a key. -/
def lookup (k : κ) : List (κ × ν) → Option ν
  | [] => none
  | (k', v) :: rest => if k' = k then some v else lookup k rest

/-- Replaces the value of a key where it stands; a new key goes to the end. -/
def write (k : κ) (v : ν) : List (κ × ν) → List (κ × ν)
  | [] => [(k, v)]
  | (k', v') :: rest => if k' = k then (k, v) :: rest else (k', v') :: write k v rest

def get? (m : Assoc κ ν) (k : κ) : Option ν := lookup k m.entries

def contains (m : Assoc κ ν) (k : κ) : Bool := (m.get? k).isSome

def put (m : Assoc κ ν) (k : κ) (v : ν) : Assoc κ ν := ⟨write k v m.entries⟩

def erase (m : Assoc κ ν) (k : κ) : Assoc κ ν := ⟨m.entries.filter fun e => e.1 ≠ k⟩

/-- Changes the value of a key that is present. -/
def modify (m : Assoc κ ν) (k : κ) (f : ν → ν) : Assoc κ ν :=
  match m.get? k with
  | some v => m.put k (f v)
  | none => m

def keys (m : Assoc κ ν) : List κ := m.entries.map Prod.fst

def size (m : Assoc κ ν) : Nat := m.entries.length

@[simp] theorem get?_empty (k : κ) : (∅ : Assoc κ ν).get? k = none := rfl

theorem lookup_write (k k' : κ) (v : ν) (es : List (κ × ν)) :
    lookup k' (write k v es) = if k = k' then some v else lookup k' es := by
  induction es with
  | nil => simp [write, lookup]
  | cons e rest ih =>
    obtain ⟨k₀, v₀⟩ := e
    by_cases h : k₀ = k
    · subst h
      by_cases h' : k₀ = k' <;> simp [write, lookup, h']
    · by_cases h' : k₀ = k'
      · subst h'
        simp [write, lookup, h, Ne.symm h]
      · simp [write, lookup, h, h', ih]

theorem get?_put (m : Assoc κ ν) (k k' : κ) (v : ν) :
    (m.put k v).get? k' = if k = k' then some v else m.get? k' :=
  lookup_write k k' v m.entries

@[simp] theorem get?_put_self (m : Assoc κ ν) (k : κ) (v : ν) : (m.put k v).get? k = some v := by
  simp [get?_put]

theorem get?_put_of_ne (m : Assoc κ ν) {k k' : κ} (v : ν) (h : k ≠ k') :
    (m.put k v).get? k' = m.get? k' := by
  simp [get?_put, h]

theorem lookup_filter_ne (k k' : κ) (es : List (κ × ν)) :
    lookup k' (es.filter fun e => e.1 ≠ k) = if k = k' then none else lookup k' es := by
  induction es with
  | nil => simp [lookup]
  | cons e rest ih =>
    obtain ⟨k₀, v₀⟩ := e
    by_cases h : k₀ = k
    · subst h
      by_cases h' : k₀ = k' <;> simp_all [lookup]
    · by_cases h' : k₀ = k'
      · subst h'
        simp_all [lookup, Ne.symm h]
      · simp_all [lookup]

theorem get?_erase (m : Assoc κ ν) (k k' : κ) :
    (m.erase k).get? k' = if k = k' then none else m.get? k' :=
  lookup_filter_ne k k' m.entries

theorem get?_modify (m : Assoc κ ν) (k k' : κ) (f : ν → ν) :
    (m.modify k f).get? k' = if k = k' then (m.get? k).map f else m.get? k' := by
  unfold modify
  cases h : m.get? k with
  | none => by_cases hk : k = k' <;> simp_all
  | some v => simp [get?_put]

end Assoc
end EventSourcing
