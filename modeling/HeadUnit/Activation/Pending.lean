import HeadUnit.Activation
import HeadUnit.Fault

/-! The activations that await their answer, each under its own number. The order of the rows means
nothing; whatever is shown of them is shown in ascending order of the numbers. -/

namespace HeadUnit

/-- The table of pending activations. -/
structure Pending where
  rows : List (CorrelationId × Activation)
  distinct : (rows.map Prod.fst).Nodup
  deriving DecidableEq

namespace Pending

/-- Nothing is pending. -/
def empty : Pending := ⟨[], List.nodup_nil⟩

/-- The activation under a number. -/
def find? (id : CorrelationId) (p : Pending) : Option Activation :=
  (p.rows.find? fun r => r.1 = id).map Prod.snd

/-- Keeps the rows that pass a test. -/
def filter (keep : CorrelationId × Activation → Bool) (p : Pending) : Pending :=
  ⟨p.rows.filter keep, List.Nodup.sublist (List.Sublist.map _ List.filter_sublist) p.distinct⟩

/-- Forgets the activation under a number. -/
def remove (id : CorrelationId) (p : Pending) : Pending := p.filter fun r => r.1 ≠ id

/-- Enters an activation; it replaces the one under the same number, if there is one. -/
def insert (id : CorrelationId) (a : Activation) (p : Pending) : Pending where
  rows := (id, a) :: (p.remove id).rows
  distinct := by
    refine List.nodup_cons.mpr ⟨fun h => ?_, (p.remove id).distinct⟩
    obtain ⟨r, hr, rfl⟩ := List.mem_map.mp h
    simp [remove, filter] at hr

/-- Forgets every activation of an application. -/
def removeApp (app : AppId) (p : Pending) : Pending := p.filter fun r => r.2.app ≠ app

/-- The rows in ascending order of their numbers. -/
def sorted (rows : List (CorrelationId × Activation)) : List (CorrelationId × Activation) :=
  rows.mergeSort fun r s => decide (r.1.number.toNat ≤ s.1.number.toNat)

/-- All rows, in ascending order of their numbers. -/
def snapshot (p : Pending) : List (CorrelationId × Activation) := sorted p.rows

/-- What an answer finds under its number: the activation to carry out, or why there is none. A
    refusal is reported before lateness. -/
def resolution (id : CorrelationId) (answer : Answer) (now : Moment) (timeout : Option UInt64)
    (p : Pending) : Except Fault Activation :=
  match p.find? id with
  | none => .error (.unknownCorrelation id)
  | some a =>
    if !answer.isSuccess then .error (.refused id answer)
    else if a.isExpired now timeout then .error (.expired id)
    else .ok a

/-- Takes an answer in. Whatever it finds, nothing stays under its number. -/
def resolve (id : CorrelationId) (answer : Answer) (now : Moment) (timeout : Option UInt64)
    (p : Pending) : Except Fault Activation × Pending :=
  (p.resolution id answer now timeout, p.remove id)

/-- The rows that have outlived the timeout, and the table without them. -/
def expire (now : Moment) (timeout : Option UInt64) (p : Pending) :
    List (CorrelationId × Activation) × Pending :=
  (sorted (p.rows.filter fun r => r.2.isExpired now timeout),
    p.filter fun r => !r.2.isExpired now timeout)

/-- How many activations are pending. -/
def size (p : Pending) : Nat := p.rows.length

/-- Whether nothing is pending. -/
def isEmpty (p : Pending) : Bool := p.rows.isEmpty

theorem find?_eq_some_iff {id : CorrelationId} {a : Activation} {p : Pending} :
    p.find? id = some a ↔ (id, a) ∈ p.rows := by
  unfold find?
  constructor
  · intro h
    obtain ⟨r, hr, rfl⟩ := Option.map_eq_some_iff.mp h
    have hid : r.1 = id := by simpa using List.find?_some hr
    exact hid ▸ List.mem_of_find?_eq_some hr
  · intro h
    suffices unique : ∀ rows : List (CorrelationId × Activation), (rows.map Prod.fst).Nodup →
        (id, a) ∈ rows → (rows.find? fun r => r.1 = id) = some (id, a) by
      rw [unique p.rows p.distinct h]
      rfl
    intro rows
    induction rows with
    | nil => intro _ h; cases h
    | cons r rs ih =>
      intro nodup mem
      obtain ⟨fresh, nodup⟩ := List.nodup_cons.mp nodup
      rcases List.mem_cons.mp mem with rfl | mem
      · simp
      · have ne : r.1 ≠ id := fun e => fresh (e ▸ List.mem_map.mpr ⟨(id, a), mem, rfl⟩)
        rw [List.find?_cons_of_neg (by simpa using ne)]
        exact ih nodup mem

@[simp] theorem mem_filter_rows {keep : CorrelationId × Activation → Bool} {p : Pending}
    {r : CorrelationId × Activation} : r ∈ (p.filter keep).rows ↔ r ∈ p.rows ∧ keep r = true :=
  List.mem_filter

theorem find?_filter_eq_some_iff {keep : CorrelationId × Activation → Bool} {p : Pending}
    {id : CorrelationId} {a : Activation} :
    (p.filter keep).find? id = some a ↔ p.find? id = some a ∧ keep (id, a) = true := by
  rw [find?_eq_some_iff, mem_filter_rows, find?_eq_some_iff]

theorem mem_insert_rows {id : CorrelationId} {a : Activation} {p : Pending}
    {r : CorrelationId × Activation} :
    r ∈ (p.insert id a).rows ↔ r = (id, a) ∨ (r ∈ p.rows ∧ r.1 ≠ id) := by
  simp [insert, remove]

theorem find?_eq_none_iff {id : CorrelationId} {p : Pending} :
    p.find? id = none ↔ ∀ r ∈ p.rows, r.1 ≠ id := by
  simp [find?]

@[simp] theorem find?_remove_self (id : CorrelationId) (p : Pending) : (p.remove id).find? id = none :=
  find?_eq_none_iff.mpr fun r hr => by simpa [remove] using (mem_filter_rows.mp hr).2

/-- Removing an activation leaves the others. -/
theorem find?_remove_of_ne {id other : CorrelationId} (h : other ≠ id) (p : Pending) :
    (p.remove id).find? other = p.find? other := by
  ext a
  rw [find?_eq_some_iff, find?_eq_some_iff, remove, mem_filter_rows]
  simp [h]

@[simp] theorem find?_insert_self (id : CorrelationId) (a : Activation) (p : Pending) :
    (p.insert id a).find? id = some a :=
  find?_eq_some_iff.mpr (mem_insert_rows.mpr (Or.inl rfl))

/-- Entering an activation leaves the others. -/
theorem find?_insert_of_ne {id other : CorrelationId} (h : other ≠ id) (a : Activation) (p : Pending) :
    (p.insert id a).find? other = p.find? other := by
  ext b
  rw [find?_eq_some_iff, find?_eq_some_iff, mem_insert_rows]
  simp [h]

/-- An answer brings about an activation that is pending under its number, if it says success and comes in
    time. -/
theorem resolution_eq_ok_iff {id : CorrelationId} {answer : Answer} {now : Moment} {timeout : Option UInt64}
    {p : Pending} {a : Activation} : p.resolution id answer now timeout = .ok a ↔
      p.find? id = some a ∧ answer.isSuccess = true ∧ a.isExpired now timeout = false := by
  unfold resolution
  cases p.find? id with
  | none => simp
  | some b =>
    dsimp only
    split
    · next refused =>
      have refused : answer.isSuccess = false := by simpa using refused
      simp [refused]
    · next success =>
      have success : answer.isSuccess = true := by simpa using success
      split
      · next late =>
        refine ⟨fun h => (by cases h), ?_⟩
        rintro ⟨h, -, fresh⟩
        cases h
        rw [late] at fresh
        cases fresh
      · next fresh =>
        have fresh : b.isExpired now timeout = false := by simpa using fresh
        constructor
        · intro h
          cases h
          exact ⟨rfl, success, fresh⟩
        · rintro ⟨h, -, -⟩
          cases h
          rfl

theorem sorted_perm (rows : List (CorrelationId × Activation)) : (sorted rows).Perm rows :=
  List.mergeSort_perm _ _

end Pending

end HeadUnit
