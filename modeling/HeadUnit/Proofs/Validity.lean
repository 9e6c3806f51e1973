import HeadUnit.Proofs.Cover
import HeadUnit.Proofs.Reachable

/-! Every status that a board keeps is valid. An unknown value is refused where it comes in: at
    registration and at each request. What is derived from valid statuses is valid again, whether by
    demotion, by overlays or by waiting for an answer. -/

namespace HeadUnit

/-- Known on every axis, and tagged as a baseline. -/
def Status.IsBaseline (s : Status) : Prop := s.isValid = true ∧ s.layer = .regular

/-- The statuses of a record are valid. -/
structure AppRecord.Valid (r : AppRecord) : Prop where
  regular : r.regular.IsBaseline
  postponed : ∀ s, r.postponed? = some s → s.IsBaseline
  told : r.told.isValid = true

/-- The statuses of a board are valid, those that wait for an answer included. -/
structure Board.Valid (b : Board) : Prop where
  apps : ∀ r ∈ b.apps, r.Valid
  pending : ∀ row ∈ b.pending.rows, row.2.target.isValid = true

theorem Status.isBaseline_onLayer {s : Status} (h : s.isValid = true) : (s.onLayer .regular).IsBaseline :=
  ⟨h, rfl⟩

theorem Status.isValid_demotedTo {s : Status} {l : Level} {c : Capabilities} (hl : l ≠ .invalid)
    (h : s.isValid = true) : (s.demotedTo l c).isValid = true := by
  obtain ⟨-, ha, hv, hx⟩ := Status.isValid_iff.mp h
  unfold Status.demotedTo
  refine Status.isValid_iff.mpr ?_
  split
  · refine ⟨hl, ?_, ?_, hx⟩
    · dsimp only
      split <;> simp
    · dsimp only
      split <;> simp [hv]
  · exact ⟨hl, by simp, by simp, hx⟩

theorem Level.leftBy_ne_invalid {asker c : Capabilities} {asked held : Level} (h : held ≠ .invalid) :
    Level.leftBy asker asked c held ≠ .invalid := by
  rcases Level.leftBy_cases asker asked c held with e | e | ⟨-, -, e⟩ <;> simp [e, h]

namespace AppRecord.Valid
variable {r asker : AppRecord} {asked : Status}

theorem new (p : Profile) : Valid { profile := p } :=
  ⟨⟨rfl, rfl⟩, fun _ h => (by cases h), rfl⟩

theorem withRegular (h : r.Valid) (valid : asked.isValid = true) : (r.withRegular asked).Valid :=
  ⟨Status.isBaseline_onLayer valid, h.postponed, h.told⟩

theorem contend (h : r.Valid) (valid : asked.isValid = true) : (AppRecord.contend asker asked r).Valid := by
  by_cases e : r.app = asker.app
  · rw [contend_of_eq e]
    exact h.withRegular valid
  · rw [contend_of_ne e]
    unfold Status.demotion?
    dsimp only
    split
    · exact h
    · exact h.withRegular (Status.isValid_demotedTo
        (Level.leftBy_ne_invalid (Status.isValid_iff.mp h.regular.1).1) h.regular.1)

theorem postpone (h : r.Valid) (valid : asked.isValid = true) : (r.postpone asked).Valid :=
  ⟨h.regular, fun s hs => by
    obtain rfl := Option.some.inj hs
    exact Status.isBaseline_onLayer valid, h.told⟩

theorem clearPostponed (h : r.Valid) : r.clearPostponed.Valid := ⟨h.regular, fun _ hs => (by cases hs), h.told⟩

theorem lay (h : r.Valid) (k : Overlay) : (r.lay k).Valid := by
  unfold AppRecord.lay
  split
  · exact h
  · exact ⟨h.regular, h.postponed, h.told⟩

theorem lift (h : r.Valid) (k : Overlay) : (r.lift k).Valid := ⟨h.regular, h.postponed, h.told⟩

theorem effective (h : r.Valid) (a : Bool) : (r.effective a).isValid = true :=
  Overlay.isValid_coverAll h.regular.1

theorem informed (h : r.Valid) (a : Bool) : (r.informed a).Valid := by
  unfold AppRecord.informed
  split
  · exact ⟨h.regular, h.postponed, h.effective a⟩
  · exact h

end AppRecord.Valid

namespace Board.Valid
variable {b : Board} {app : AppId} {asked : Status} {p : Profile}

/-- A change of the records that keeps each of them valid. -/
theorem map (h : b.Valid) {f : AppRecord → AppRecord} (keeps : ∀ r, r.Valid → (f r).Valid) :
    Valid { b with apps := b.apps.map f } where
  apps r hr := by
    obtain ⟨r₀, hr₀, rfl⟩ := List.mem_map.mp hr
    exact keeps r₀ (h.apps r₀ hr₀)
  pending := h.pending

theorem modify (h : b.Valid) {f : AppRecord → AppRecord} (keeps : ∀ r, r.Valid → (f r).Valid) :
    (b.modify app f).Valid :=
  h.map fun r hr => by
    split
    · exact keeps r hr
    · exact hr

theorem cover (h : b.Valid) (k : Overlay) : (b.cover k).Valid := ⟨(h.map fun _ hr => hr.lay k).apps, h.pending⟩

theorem uncover (h : b.Valid) (k : Overlay) : (b.uncover k).Valid :=
  ⟨(h.map fun _ hr => hr.lift k).apps, h.pending⟩

theorem settle (h : b.Valid) (a : Bool) : (b.settle a).board.Valid := h.map fun _ hr => hr.informed a

theorem keepPending (h : b.Valid) (keep : CorrelationId × Activation → Bool) : (b.keepPending keep).Valid :=
  ⟨h.apps, fun row hrow => h.pending row (Pending.mem_filter_rows.mp hrow).1⟩

theorem arbitrate (h : b.Valid) (ordered : b.apps.Ordered) (valid : asked.isValid = true) :
    (b.arbitrate app asked).Valid :=
  ordered.arbitrate_induct (P := fun apps => Valid { b with apps }) h
    (fun _ _ => h.map fun _ hr => hr.contend valid) app

theorem enrol (h : b.Valid) : (b.enrol p).Valid where
  apps r hr := by
    rcases Roster.mem_insert.mp hr with rfl | hr
    · suffices fold : ∀ (ks : List Overlay) (r : AppRecord), r.Valid →
          (ks.foldl (fun r k => r.lay k) r).Valid from fold _ _ (.new p)
      intro ks
      induction ks with
      | nil => exact fun _ hr => hr
      | cons k ks ih => exact fun r hr => ih _ (hr.lay k)
    · exact h.apps r hr
  pending := h.pending

theorem promote (h : b.Valid) (ordered : b.apps.Ordered) : b.promote.Valid :=
  promote_induct_ordered ordered (fun _ => h) (h.map fun _ hr => hr.clearPostponed) fun ordered' h' hr hs =>
    h'.arbitrate ordered' ((h.apps _ hr).postponed _ hs).1

theorem effect {c : Conditions} {p : Option Profile} {t : Turn} (h : b.Valid) (ordered : b.apps.Ordered)
    (e : Effect c b p t) : t.board.Valid := by
  cases e with
  | refused f => exact h
  | silent => exact h
  | registered p l fresh valid =>
    refine (h.enrol.arbitrate (ordered_enrol ordered fresh) ?_).settle _
    exact valid
  | unregistered known =>
    exact ⟨fun r hr => h.apps r (List.mem_filter.mp hr).1,
      fun row hrow => h.pending row (Pending.mem_filter_rows.mp hrow).1⟩
  | resuming known on => exact h.modify fun _ hr => ⟨hr.regular, hr.postponed, hr.told⟩
  | postponed known valid blocked waits => exact h.modify fun _ hr => hr.postpone valid
  | requested known valid free =>
    rw [requestNow_board known]
    exact (h.arbitrate ordered valid).settle _
  | awaited known valid free id =>
    refine ⟨h.apps, fun row hrow => ?_⟩
    rcases Pending.mem_insert_rows.mp hrow with rfl | ⟨hrow, -⟩
    · exact valid
    · exact h.pending row hrow
  | unanswered id f => exact h.keepPending _
  | answered found owner =>
    refine ((h.keepPending _).arbitrate ordered ?_).settle _
    exact h.pending _ (Pending.find?_eq_some_iff.mp found)
  | started isGlobal => exact (h.cover _).settle _
  | stopped isGlobal => exact ((h.uncover _).promote (ordered_uncover ordered _)).settle _
  | streaming known => exact (h.modify fun _ hr => hr.lay _).settle _
  | streamed known =>
    exact ((h.modify fun _ hr => hr.lift _).promote (ordered_modify ordered (AppRecord.lift_app _))).settle _

end Board.Valid

theorem Board.Reachable.valid {b : Board} (h : Reachable b) : b.Valid :=
  h.induct (P := Board.Valid) ⟨fun _ hr => (by cases hr), fun _ hr => (by cases hr)⟩
    (fun hb ih e => ih.effect hb.ordered e) fun keep ih => ih.keepPending keep

end HeadUnit
