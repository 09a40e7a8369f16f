import Mathlib.Data.List.TakeWhile
import Mathlib.Data.Set.Function
import EventSourcing.Aggregate

/-!
The texts of aggregate ids.
The canonical form of an id is read by cutting it at its first dot. So an id is read back where its
type is not empty and holds no dot, and reading loses nothing of any text that can be read.
Different ids have one canonical form just where the dot between type and key is another one in
each.
-/
namespace EventSourcing.AggregateId

theorem toList_dotted (s t : String) : (s ++ "." ++ t).toList = s.toList ++ '.' :: t.toList := by
  rw [String.toList_append, String.toList_append, List.append_assoc]
  rfl

theorem toList_canonical (a : AggregateId) :
    a.canonical.toList = a.type.toList ++ '.' :: a.key.toList :=
  toList_dotted a.type a.key

section Cut
variable {s : String} {front back : List Char}

theorem parse_of_dotless (h : '.' ∉ s.toList) : parse s = .error ⟨s⟩ := by
  have whole : s.toList.dropWhile (· ≠ '.') = [] := by
    rw [List.dropWhile_eq_nil_iff]
    intro c member
    exact decide_eq_true fun dot => h (dot ▸ member)
  rw [parse, whole]
  split
  · rename_i behind
    cases behind
  · rfl

/-- A text is read by cutting it at its first dot, which must not be its first character. -/
theorem parse_of_cut (cut : s.toList = front ++ '.' :: back) (first : '.' ∉ front) :
    parse s = if front = [] then .error ⟨s⟩ else .ok ⟨String.ofList front, String.ofList back⟩ := by
  have before : ∀ c ∈ front, decide (c ≠ '.') = true := fun c member =>
    decide_eq_true fun dot => first (dot ▸ member)
  have taken : s.toList.takeWhile (· ≠ '.') = front := by
    rw [cut, List.takeWhile_append_of_pos before, List.takeWhile_cons_of_neg (by decide),
      List.append_nil]
  have left : s.toList.dropWhile (· ≠ '.') = '.' :: back := by
    rw [cut, List.dropWhile_append_of_pos before, List.dropWhile_cons_of_neg (by decide)]
  simp only [parse, taken, left]
  cases front with
  | nil => rfl
  | cons c rest => rfl

/-- What is read from a text is the id that has this canonical form and no dot in its type, which is
not empty. -/
theorem parse_eq_ok_iff {a : AggregateId} :
    parse s = .ok a ↔ a.canonical = s ∧ a.type ≠ "" ∧ '.' ∉ a.type.toList := by
  constructor
  · intro read
    by_cases dot : '.' ∈ s.toList
    · obtain ⟨front, back, cut, first⟩ := List.eq_append_cons_of_mem dot
      rw [parse_of_cut cut first] at read
      split at read
      · cases read
      · rename_i filled
        obtain rfl := Except.ok.inj read
        refine ⟨String.toList_injective ?_, ?_, ?_⟩
        · rw [toList_canonical, String.toList_ofList, String.toList_ofList, cut]
        · rw [Ne, ← String.toList_eq_nil_iff, String.toList_ofList]
          exact filled
        · rw [String.toList_ofList]
          exact first
    · rw [parse_of_dotless dot] at read
      cases read
  · rintro ⟨rfl, filled, first⟩
    rw [parse_of_cut (toList_canonical a) first, if_neg (mt String.toList_eq_nil_iff.1 filled),
      String.ofList_toList, String.ofList_toList]

theorem exists_parse_eq_ok_iff :
    (∃ a, parse s = .ok a) ↔ '.' ∈ s.toList ∧ s.toList.head? ≠ some '.' := by
  constructor
  · rintro ⟨a, read⟩
    obtain ⟨rfl, filled, first⟩ := parse_eq_ok_iff.1 read
    rw [toList_canonical]
    refine ⟨List.mem_append_right _ List.mem_cons_self, ?_⟩
    obtain ⟨c, rest, type⟩ := List.exists_cons_of_ne_nil (mt String.toList_eq_nil_iff.1 filled)
    rw [type, List.cons_append, List.head?_cons]
    intro dot
    rw [type, Option.some.inj dot] at first
    exact first List.mem_cons_self
  · rintro ⟨dot, start⟩
    obtain ⟨front, back, cut, first⟩ := List.eq_append_cons_of_mem dot
    have filled : front ≠ [] := by
      rintro rfl
      exact start (by rw [cut]; rfl)
    exact ⟨_, (parse_of_cut cut first).trans (if_neg filled)⟩

/-- Whatever cannot be read is refused with its text. -/
theorem parse_eq_error (h : ¬ ∃ a, parse s = .ok a) : parse s = .error ⟨s⟩ := by
  by_cases dot : '.' ∈ s.toList
  · obtain ⟨front, back, cut, first⟩ := List.eq_append_cons_of_mem dot
    have read := parse_of_cut cut first
    split at read
    · exact read
    · exact absurd ⟨_, read⟩ h
  · exact parse_of_dotless dot

end Cut

/-- The type of `b` goes on after that of `a` with a dot and a part, with which the key of `a`
begins before a dot and the key of `b`. -/
def CutLater (a b : AggregateId) (part : String) : Prop :=
  b.type = a.type ++ "." ++ part ∧ a.key = part ++ "." ++ b.key

variable {a b : AggregateId}

theorem CutLater.canonical_eq {part : String} (h : CutLater a b part) :
    a.canonical = b.canonical := by
  obtain ⟨type, key⟩ := h
  simp only [canonical, type, key, String.append_assoc]

theorem CutLater.dot_mem {part : String} (h : CutLater a b part) : '.' ∈ b.type.toList := by
  rw [h.1, toList_dotted]
  exact List.mem_append_right _ List.mem_cons_self

theorem ext_toList (type : a.type.toList = b.type.toList) (key : a.key.toList = b.key.toList) :
    a = b := by
  cases a
  cases b
  exact congr (congrArg mk (String.toList_injective type)) (String.toList_injective key)

/-- If what one type has more than the other is what its key has less, nothing is more or the one id
is cut later. -/
theorem eq_or_cutLater_of_append {part : List Char} (type : b.type.toList = a.type.toList ++ part)
    (key : '.' :: a.key.toList = part ++ '.' :: b.key.toList) :
    a = b ∨ ∃ part, CutLater a b part := by
  obtain ⟨rfl, same⟩ | ⟨rest, rfl, behind⟩ := List.cons_eq_append_iff.1 key
  · rw [List.append_nil] at type
    exact .inl (ext_toList type.symm (List.cons.inj same).2.symm)
  · refine .inr ⟨String.ofList rest, String.toList_injective ?_, String.toList_injective ?_⟩
    · rw [type, toList_dotted, String.toList_ofList]
    · rw [behind, toList_dotted, String.toList_ofList]

/-- Of two ids with one canonical form, either both are cut at one dot or one is cut later. -/
theorem eq_or_cutLater (h : a.canonical = b.canonical) :
    a = b ∨ ∃ part, CutLater a b part ∨ CutLater b a part := by
  have texts := congrArg String.toList h
  rw [toList_canonical, toList_canonical] at texts
  obtain ⟨part, type, key⟩ | ⟨part, type, key⟩ := List.append_eq_append_iff.1 texts
  · obtain same | ⟨part, later⟩ := eq_or_cutLater_of_append type key
    · exact .inl same
    · exact .inr ⟨part, .inl later⟩
  · obtain same | ⟨part, later⟩ := eq_or_cutLater_of_append type key
    · exact .inl same.symm
    · exact .inr ⟨part, .inr later⟩

/-- An id is read back from its canonical form just where its type is not empty and holds no dot;
any other is refused there, or read as another id. A text is read just where it has a dot that is
not its first character, and is then the canonical form of what is read; any other is refused with
itself. Different ids have one canonical form just where the type of one goes on after that of the
other with a dot and a part, with which the key of the other begins before a dot and the key of the
one; so ids without a dot in their types have canonical forms of their own. -/
theorem canonical_texts_are_cut_at_the_first_dot :
    (∀ a : AggregateId, parse a.canonical = .ok a ↔ a.type ≠ "" ∧ '.' ∉ a.type.toList) ∧
    (∀ a : AggregateId, ¬ (a.type ≠ "" ∧ '.' ∉ a.type.toList) →
      parse a.canonical = .error ⟨a.canonical⟩ ∨ ∃ b, parse a.canonical = .ok b ∧ b ≠ a) ∧
    (∀ s, (∃ a, parse s = .ok a) ↔ '.' ∈ s.toList ∧ s.toList.head? ≠ some '.') ∧
    (∀ s a, parse s = .ok a → a.canonical = s) ∧
    (∀ s, ¬ ('.' ∈ s.toList ∧ s.toList.head? ≠ some '.') → parse s = .error ⟨s⟩) ∧
    (∀ a b : AggregateId, a ≠ b → (a.canonical = b.canonical ↔ ∃ part,
      b.type = a.type ++ "." ++ part ∧ a.key = part ++ "." ++ b.key ∨
      a.type = b.type ++ "." ++ part ∧ b.key = part ++ "." ++ a.key)) ∧
    Set.InjOn canonical {a | '.' ∉ a.type.toList} := by
  have back (a : AggregateId) : parse a.canonical = .ok a ↔ a.type ≠ "" ∧ '.' ∉ a.type.toList := by
    rw [parse_eq_ok_iff, and_iff_right rfl]
  refine ⟨back, fun a lost => ?_, fun s => exists_parse_eq_ok_iff,
    fun s a read => (parse_eq_ok_iff.1 read).1, fun s bad => ?_,
    fun a b other => ⟨fun same => ?_, ?_⟩, fun a ha b hb same => ?_⟩
  · by_cases read : ∃ b, parse a.canonical = .ok b
    · obtain ⟨b, read⟩ := read
      refine .inr ⟨b, read, ?_⟩
      rintro rfl
      exact lost ((back b).1 read)
    · exact .inl (parse_eq_error read)
  · rw [← exists_parse_eq_ok_iff] at bad
    exact parse_eq_error bad
  · exact (eq_or_cutLater same).resolve_left other
  · rintro ⟨part, later | later⟩
    · exact CutLater.canonical_eq later
    · exact (CutLater.canonical_eq later).symm
  · obtain equal | ⟨part, later | later⟩ := eq_or_cutLater same
    · exact equal
    · exact absurd later.dot_mem hb
    · exact absurd later.dot_mem ha

/-- A dot may stand in a type or in a key. The canonical form is the same, and it is read as the id
with the dot in its key. -/
theorem dotted_type_is_read_as_dotted_key :
    let dottedType : AggregateId := ⟨"a.b", "c"⟩
    let dottedKey : AggregateId := ⟨"a", "b.c"⟩
    dottedType ≠ dottedKey ∧ dottedType.canonical = dottedKey.canonical ∧
      parse dottedType.canonical = .ok dottedKey ∧ parse ".key" = .error ⟨".key"⟩ := by
  intro dottedType dottedKey
  obtain ⟨back, _, _, _, refused, shared, _⟩ := canonical_texts_are_cut_at_the_first_dot
  have other : dottedType ≠ dottedKey := by decide
  have same : dottedType.canonical = dottedKey.canonical :=
    (shared dottedType dottedKey other).2 ⟨"b", .inr ⟨by decide, by decide⟩⟩
  refine ⟨other, same, ?_, refused ".key" (by decide)⟩
  rw [same]
  exact (back dottedKey).2 (by decide)

end EventSourcing.AggregateId
