import HeadUnit.AppRecord

/-! The roster of registered applications: their records in ascending order of the middleware's
number, one for each number. -/

namespace HeadUnit

/-- The records of the registered applications. -/
abbrev Roster := List AppRecord

namespace Roster

/-- Ascending numbers, so no number twice. -/
def Ordered (apps : Roster) : Prop :=
  List.Pairwise (fun r s => r.app.number.toNat < s.app.number.toNat) apps

/-- The record of an application. -/
def record? (app : AppId) (apps : Roster) : Option AppRecord := apps.find? fun r => r.app = app

/-- The first application that the HMI knows under a number. -/
def ofHmiApp? (hmiApp : HmiAppId) (apps : Roster) : Option AppId :=
  (apps.find? fun r => r.profile.hmiApp = hmiApp).map AppRecord.app

/-- Changes the record of one application. -/
def modify (app : AppId) (f : AppRecord → AppRecord) (apps : Roster) : Roster :=
  apps.map fun r => if r.app = app then f r else r

/-- Adds a record at its place in the order. -/
def insert (r : AppRecord) : Roster → Roster
  | [] => [r]
  | x :: xs => if r.app.number < x.app.number then r :: x :: xs else x :: insert r xs

/-- Removes the record of an application. -/
def remove (app : AppId) (apps : Roster) : Roster := apps.filter fun r => r.app ≠ app

theorem mem_insert {r s : AppRecord} {apps : Roster} : s ∈ apps.insert r ↔ s = r ∨ s ∈ apps := by
  induction apps with
  | nil => simp [insert]
  | cons x xs ih =>
    unfold insert
    split
    · simp
    · simp [ih, or_left_comm]

theorem record?_mem {app : AppId} {apps : Roster} {r : AppRecord} (h : apps.record? app = some r) :
    r ∈ apps ∧ r.app = app :=
  ⟨List.mem_of_find?_eq_some h, by simpa using List.find?_some h⟩

theorem record?_eq_none_iff {app : AppId} {apps : Roster} :
    apps.record? app = none ↔ ∀ r ∈ apps, r.app ≠ app := by
  simp [record?]

/-- In an ordered roster the record of an application is the only one with its number. -/
theorem Ordered.record?_eq_some_iff {apps : Roster} (h : apps.Ordered) {app : AppId} {r : AppRecord} :
    apps.record? app = some r ↔ r ∈ apps ∧ r.app = app := by
  refine ⟨record?_mem, ?_⟩
  rintro ⟨mem, rfl⟩
  induction apps with
  | nil => cases mem
  | cons x xs ih =>
    obtain ⟨hx, hxs⟩ := List.pairwise_cons.mp h
    rcases List.mem_cons.mp mem with rfl | mem
    · simp [record?]
    · have ne : x.app ≠ r.app := fun e => Nat.lt_irrefl _ (e ▸ hx r mem)
      have step := ih hxs mem
      rw [record?] at step ⊢
      rw [List.find?_cons_of_neg (by simpa using ne)]
      exact step

theorem isSome_record?_of_mem {apps : Roster} {r : AppRecord} (h : r ∈ apps) :
    (apps.record? r.app).isSome = true := by
  rw [record?, List.find?_isSome]
  exact ⟨r, h, by simp⟩

/-- A change of every record that keeps its number is seen in the record of each application. -/
theorem record?_map {f : AppRecord → AppRecord} (keeps : ∀ r, (f r).app = r.app) (app : AppId) (apps : Roster) :
    record? app (apps.map f) = (apps.record? app).map f := by
  rw [record?, List.find?_map]
  simp only [Function.comp_def, keeps]
  rfl

/-- A change of one record that keeps its number is seen under that number alone. -/
theorem record?_modify {app other : AppId} {f : AppRecord → AppRecord} {apps : Roster}
    (keeps : ∀ r, (f r).app = r.app) :
    (apps.modify app f).record? other =
      (apps.record? other).map fun r => if r.app = app then f r else r := by
  refine record?_map (fun r => ?_) other apps
  split
  · exact keeps r
  · rfl

/-- A new number keeps the order. -/
theorem Ordered.insert {apps : Roster} (h : apps.Ordered) {r : AppRecord}
    (new : apps.record? r.app = none) : (apps.insert r).Ordered := by
  induction apps with
  | nil => simp [Roster.insert, Ordered]
  | cons x xs ih =>
    obtain ⟨hx, hxs⟩ := List.pairwise_cons.mp h
    have ne : x.app ≠ r.app := by
      intro e
      simp [record?, e] at new
    have new' : record? r.app xs = none := by
      rw [record?, List.find?_eq_none] at new ⊢
      exact fun s hs => new s (List.mem_cons_of_mem _ hs)
    unfold Roster.insert
    split
    · next lt =>
      have lt' : r.app.number.toNat < x.app.number.toNat := UInt32.lt_iff_toNat_lt.mp lt
      refine List.pairwise_cons.mpr ⟨fun s hs => ?_, h⟩
      rcases List.mem_cons.mp hs with rfl | hs
      · exact lt'
      · exact Nat.lt_trans lt' (hx s hs)
    · next ge =>
      refine List.pairwise_cons.mpr ⟨fun s hs => ?_, ih hxs new'⟩
      rcases mem_insert.mp hs with rfl | hs
      · have le : x.app.number.toNat ≤ s.app.number.toNat :=
          Nat.le_of_not_lt fun lt => ge (UInt32.lt_iff_toNat_lt.mpr lt)
        refine Nat.lt_of_le_of_ne le fun e => ne ?_
        have num : x.app.number = s.app.number := UInt32.toNat_inj.mp e
        cases hx' : x.app
        cases hs' : s.app
        simp_all
      · exact hx s hs

theorem Ordered.remove {apps : Roster} (h : apps.Ordered) (app : AppId) :
    (apps.remove app).Ordered :=
  List.Pairwise.filter _ h

/-- A change that keeps the application's number keeps the order. -/
theorem Ordered.map {apps : Roster} (h : apps.Ordered) {f : AppRecord → AppRecord}
    (keeps : ∀ r, (f r).app = r.app) : Ordered (apps.map f) := by
  refine List.pairwise_map.mpr (List.Pairwise.imp ?_ h)
  intro r s lt
  rw [keeps, keeps]
  exact lt

end Roster

end HeadUnit
