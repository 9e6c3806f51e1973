import HeadUnit.Outbox

/-! Draining under a script: a finite plan of what each delivery does to the outbox from inside. -/

namespace HeadUnit.Outbox

/-- One act of a script: when the delivery numbered `index` (the first is zero) is made, `items` are
    queued, and `drains` tells whether the outbox is then drained again from inside. -/
structure Insertion (ι : Type) where
  index : Nat
  items : List ι
  drains : Bool := false

/-- What a scripted drain leaves on record. -/
inductive Delivery (ι : Type)
  /-- An item was delivered. -/
  | item (i : ι)
  /-- An act of the script was carried out: what its own drain delivered, and whether the outbox was
      empty afterwards. -/
  | inner (items : List ι) (empty : Bool)

/-- The surroundings of a scripted drain: the acts still to come, the number of deliveries made and
    the record. -/
structure Script (ι : Type) where
  acts : List (Insertion ι)
  made : Nat := 0
  record : List (Delivery ι) := []

variable {ι : Type}

/-- Collects what it delivers. -/
def collector : Courier ι (List ι) where
  deliver i o s := (o, s ++ [i])
  rank _ := 0
  settles _ _ _ := Or.inr ⟨rfl, Nat.le_refl _⟩

/-- Carries one act out. -/
def Insertion.perform (a : Insertion ι) (o : Outbox ι) : Outbox ι × Delivery ι :=
  let o := o.extend a.items
  let drained := if a.drains then o.drain collector [] else (o, [])
  (drained.1, .inner drained.2 drained.1.isEmpty)

/-- Carries acts out, one after the other. -/
def performAll (acts : List (Insertion ι)) (o : Outbox ι) : Outbox ι × List (Delivery ι) :=
  acts.foldl (fun done a => ((a.perform done.1).1, done.2 ++ [(a.perform done.1).2])) (o, [])

namespace Script

/-- The acts due at the next delivery. -/
def due (s : Script ι) : List (Insertion ι) := s.acts.filter (·.index = s.made)

/-- Makes one delivery: the item goes on record, then the acts due are carried out and done with. -/
def deliver (i : ι) (o : Outbox ι) (s : Script ι) : Outbox ι × Script ι :=
  let performed := performAll s.due o
  (performed.1,
    { acts := s.acts.filter (·.index ≠ s.made)
      made := s.made + 1
      record := s.record ++ .item i :: performed.2 })

/-- A delivery with nothing due leaves the outbox alone, and any other uses up what is due. -/
theorem deliver_settles (i : ι) (o : Outbox ι) (s : Script ι) :
    (s.deliver i o).2.acts.length < s.acts.length ∨
      (s.deliver i o).2.acts.length = s.acts.length ∧
        (s.deliver i o).1.queue.length ≤ o.queue.length := by
  by_cases h : ∀ a ∈ s.acts, a.index ≠ s.made
  · have nothing : s.due = [] := List.filter_eq_nil_iff.mpr fun a ha => by simpa using h a ha
    have all : s.acts.filter (·.index ≠ s.made) = s.acts :=
      List.filter_eq_self.mpr fun a ha => by simpa using h a ha
    refine Or.inr ⟨?_, ?_⟩
    · simp only [deliver]
      rw [all]
    · simp [deliver, nothing, performAll]
  · refine Or.inl ?_
    simp only [deliver]
    refine Nat.lt_of_le_of_ne (List.length_filter_le _ _) fun e => h fun a ha => ?_
    simpa using List.length_filter_eq_length_iff.mp e a ha

/-- The courier that follows a script. -/
def courier : Courier ι (Script ι) where
  deliver := deliver
  rank s := s.acts.length
  settles := deliver_settles

end Script

/-- Drains under a script; the record tells what was delivered and what the acts did. -/
def drainScripted (acts : List (Insertion ι)) (o : Outbox ι) : Outbox ι × List (Delivery ι) :=
  let done := o.drain Script.courier { acts }
  (done.1, done.2.record)

end HeadUnit.Outbox
