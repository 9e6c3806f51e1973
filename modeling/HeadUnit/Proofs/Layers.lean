import HeadUnit.Proofs.Steps
import HeadUnit.Proofs.Cover
import Mathlib.Data.List.Basic

/-! The overlays over the applications. What is on globally is kept once for the head unit and once in
    the stack of every application; the two never drift apart, through any registrations, starts and
    stops. So an interrupt that is on lies over every application, and what it enforces shows through
    whatever lies above it. -/

namespace HeadUnit

/-! ### One stack -/

/-- The stack of an application holds every global overlay that is on, in the same order, and besides
    them nothing but the application's own streaming overlay. -/
structure AppRecord.Layered (overlays : List Overlay) (r : AppRecord) : Prop where
  nodup : r.overlays.Nodup
  inStep : r.overlays.filter Overlay.isGlobal = overlays
  streaming : ∀ k ∈ r.overlays, k.isGlobal = false → k = r.capabilities.streamingOverlay

theorem Capabilities.streamingOverlay_isGlobal (c : Capabilities) : c.streamingOverlay.isGlobal = false := by
  unfold streamingOverlay
  split <;> rfl

namespace AppRecord

/-- Laying overlays that do not lie there yet puts them on top one after the other. -/
theorem foldl_lay_overlays {ks : List Overlay} {r : AppRecord} (h : (r.overlays ++ ks).Nodup) :
    (ks.foldl (fun r k => r.lay k) r).overlays = r.overlays ++ ks := by
  induction ks generalizing r with
  | nil => exact (List.append_nil _).symm
  | cons k ks ih =>
    have new : k ∉ r.overlays := fun hk =>
      (List.nodup_append.mp h).2.2 k hk k List.mem_cons_self rfl
    have laid : (r.lay k).overlays = r.overlays ++ [k] := by rw [lay_overlays, if_neg new]
    rw [List.foldl_cons, ih (by rw [laid, List.append_assoc]; exact h), laid, List.append_assoc]
    rfl

namespace Layered
variable {r : AppRecord} {overlays : List Overlay} {k : Overlay}

theorem mem_iff (h : r.Layered overlays) (isGlobal : k.isGlobal = true) : k ∈ overlays ↔ k ∈ r.overlays := by
  rw [← h.inStep, List.mem_filter]
  simp [isGlobal]

theorem congr {r' : AppRecord} (h : r.Layered overlays) (profile : r'.profile = r.profile)
    (same : r'.overlays = r.overlays) : r'.Layered overlays where
  nodup := same ▸ h.nodup
  inStep := same ▸ h.inStep
  streaming k' hk' hs := by
    rw [same] at hk'
    exact (h.streaming k' hk' hs).trans (congrArg (·.capabilities.streamingOverlay) profile.symm)

/-- A stack in step grows with the global overlays. -/
theorem lay (h : r.Layered overlays) (isGlobal : k.isGlobal = true) :
    (r.lay k).Layered (if overlays.contains k then overlays else overlays ++ [k]) := by
  by_cases mem : k ∈ r.overlays
  · have on : overlays.contains k = true := by simpa using (h.mem_iff isGlobal).mpr mem
    rw [if_pos on]
    exact h.congr (r.lay_profile k) (by rw [lay_overlays, if_pos mem])
  · have off : ¬overlays.contains k = true := by simpa using fun hk => mem ((h.mem_iff isGlobal).mp hk)
    have laid : (r.lay k).overlays = r.overlays ++ [k] := by rw [lay_overlays, if_neg mem]
    rw [if_neg off]
    refine ⟨?_, ?_, ?_⟩
    · rw [laid, ← List.concat_eq_append]
      exact h.nodup.concat mem
    · rw [laid, List.filter_append, h.inStep, List.filter_cons_of_pos isGlobal]
      rfl
    · intro k' hk' hs
      rw [laid] at hk'
      rcases List.mem_append.mp hk' with hk' | hk'
      · exact (h.streaming k' hk' hs).trans (congrArg (·.capabilities.streamingOverlay) (r.lay_profile k).symm)
      · obtain rfl := List.mem_singleton.mp hk'
        rw [isGlobal] at hs
        cases hs

theorem lift (h : r.Layered overlays) (k : Overlay) : (r.lift k).Layered (overlays.filter (· ≠ k)) where
  nodup := h.nodup.filter _
  inStep := by rw [lift_overlays, List.filter_comm, h.inStep]
  streaming k' hk' hs := h.streaming k' (List.mem_filter.mp hk').1 hs

/-- The streaming overlay lies beside the global ones. -/
theorem layStreaming (h : r.Layered overlays) : (r.lay r.capabilities.streamingOverlay).Layered overlays := by
  have notGlobal := r.capabilities.streamingOverlay_isGlobal
  by_cases mem : r.capabilities.streamingOverlay ∈ r.overlays
  · exact h.congr (r.lay_profile _) (by rw [lay_overlays, if_pos mem])
  · have laid : (r.lay r.capabilities.streamingOverlay).overlays =
        r.overlays ++ [r.capabilities.streamingOverlay] := by rw [lay_overlays, if_neg mem]
    have same : (r.lay r.capabilities.streamingOverlay).capabilities = r.capabilities :=
      congrArg Profile.capabilities (r.lay_profile _)
    refine ⟨?_, ?_, ?_⟩
    · rw [laid, ← List.concat_eq_append]
      exact h.nodup.concat mem
    · rw [laid, List.filter_append, h.inStep, List.filter_cons_of_neg (by simp [notGlobal])]
      exact List.append_nil _
    · intro k' hk' hs
      rw [laid] at hk'
      rw [same]
      rcases List.mem_append.mp hk' with hk' | hk'
      · exact h.streaming k' hk' hs
      · exact List.mem_singleton.mp hk'

theorem liftStreaming (h : r.Layered overlays) : (r.lift r.capabilities.streamingOverlay).Layered overlays := by
  have kept : overlays.filter (· ≠ r.capabilities.streamingOverlay) = overlays := by
    rw [List.filter_eq_self]
    intro k hk
    have isGlobal : k.isGlobal = true := by
      rw [← h.inStep] at hk
      exact (List.mem_filter.mp hk).2
    have ne : k ≠ r.capabilities.streamingOverlay := fun e => by
      rw [e, r.capabilities.streamingOverlay_isGlobal] at isGlobal
      cases isGlobal
    simpa using ne
  exact kept ▸ h.lift r.capabilities.streamingOverlay

/-- Beside the global overlays there is the streaming overlay once, or nothing. -/
theorem local_cases (h : r.Layered overlays) :
    r.overlays.filter (fun k => !k.isGlobal) = [] ∨
      r.overlays.filter (fun k => !k.isGlobal) = [r.capabilities.streamingOverlay] := by
  have nodup := h.nodup.filter fun k => !k.isGlobal
  have same : ∀ k ∈ r.overlays.filter (fun k => !k.isGlobal), k = r.capabilities.streamingOverlay := by
    intro k hk
    obtain ⟨hk, notGlobal⟩ := List.mem_filter.mp hk
    exact h.streaming k hk (by simpa using notGlobal)
  generalize r.overlays.filter (fun k => !k.isGlobal) = ks at nodup same ⊢
  match ks with
  | [] => exact Or.inl rfl
  | [k] => exact Or.inr (congrArg ([·]) (same k List.mem_cons_self))
  | k :: k' :: ks =>
    have twice : k = k' :=
      (same k List.mem_cons_self).trans (same k' (List.mem_cons_of_mem _ List.mem_cons_self)).symm
    simp [twice] at nodup

end Layered

end AppRecord

/-! ### Boards -/

/-- The global overlays, each once, and every stack in step with them. -/
structure Board.Layered (b : Board) : Prop where
  nodup : b.overlays.Nodup
  isGlobal : ∀ k ∈ b.overlays, k.isGlobal = true
  apps : ∀ r ∈ b.apps, r.Layered b.overlays

namespace Board.Layered
variable {b : Board}

/-- A change of the records that keeps each stack in step. -/
theorem map (h : b.Layered) {f : AppRecord → AppRecord}
    (keeps : ∀ r ∈ b.apps, r.Layered b.overlays → (f r).Layered b.overlays) :
    Layered { b with apps := b.apps.map f } where
  nodup := h.nodup
  isGlobal := h.isGlobal
  apps r hr := by
    obtain ⟨r₀, hr₀, rfl⟩ := List.mem_map.mp hr
    exact keeps r₀ hr₀ (h.apps r₀ hr₀)

theorem modify (h : b.Layered) {app : AppId} {f : AppRecord → AppRecord}
    (keeps : ∀ r ∈ b.apps, r.app = app → r.Layered b.overlays → (f r).Layered b.overlays) :
    (b.modify app f).Layered :=
  h.map fun r mem hr => by
    split
    · next e => exact keeps r mem e hr
    · exact hr

theorem keepPending (h : b.Layered) (keep : CorrelationId × Activation → Bool) : (b.keepPending keep).Layered :=
  ⟨h.nodup, h.isGlobal, h.apps⟩

theorem settle (h : b.Layered) (a : Bool) : (b.settle a).board.Layered :=
  h.map fun r _ hr => by
    unfold AppRecord.informed
    split
    · exact hr.congr rfl rfl
    · exact hr

theorem arbitrate (h : b.Layered) (ordered : b.apps.Ordered) (app : AppId) (asked : Status) :
    (b.arbitrate app asked).Layered :=
  ordered.arbitrate_induct (P := fun apps => Layered { b with apps }) h
    (fun _ _ => h.map fun _ _ hr => hr.congr AppRecord.contend_profile AppRecord.contend_overlays) app

theorem promote (h : b.Layered) (ordered : b.apps.Ordered) : b.promote.Layered :=
  promote_induct_ordered ordered (fun _ => h) (h.map fun _ _ hr => hr.congr rfl rfl) fun ordered' h' _ _ =>
    h'.arbitrate ordered' _ _

/-- An application that registers comes under what is on. -/
theorem enrol (h : b.Layered) (p : Profile) : (b.enrol p).Layered where
  nodup := h.nodup
  isGlobal := h.isGlobal
  apps r hr := by
    rcases Roster.mem_insert.mp hr with rfl | hr
    · have laid : (b.overlays.foldl (fun r k => r.lay k) ({ profile := p } : AppRecord)).overlays = b.overlays :=
        AppRecord.foldl_lay_overlays (r := { profile := p }) h.nodup
      refine ⟨laid.symm ▸ h.nodup, ?_, fun k hk hs => ?_⟩
      · rw [laid]
        exact List.filter_eq_self.mpr h.isGlobal
      · rw [laid] at hk
        rw [h.isGlobal k hk] at hs
        cases hs
    · exact h.apps r hr

theorem cover {k : Overlay} (h : b.Layered) (isGlobal : k.isGlobal = true) : (b.cover k).Layered where
  nodup := by
    unfold Board.cover
    dsimp only
    split
    · exact h.nodup
    · next off =>
      rw [← List.concat_eq_append]
      exact h.nodup.concat (by simpa using off)
  isGlobal k' hk' := by
    unfold Board.cover at hk'
    dsimp only at hk'
    split at hk'
    · exact h.isGlobal k' hk'
    · rcases List.mem_append.mp hk' with hk' | hk'
      · exact h.isGlobal k' hk'
      · obtain rfl := List.mem_singleton.mp hk'
        exact isGlobal
  apps r hr := by
    obtain ⟨r₀, hr₀, rfl⟩ := List.mem_map.mp hr
    exact (h.apps r₀ hr₀).lay isGlobal

theorem uncover (h : b.Layered) (k : Overlay) : (b.uncover k).Layered where
  nodup := h.nodup.filter _
  isGlobal k' hk' := h.isGlobal k' (List.mem_filter.mp hk').1
  apps r hr := by
    obtain ⟨r₀, hr₀, rfl⟩ := List.mem_map.mp hr
    exact (h.apps r₀ hr₀).lift k

theorem effect {c : Conditions} {p : Option Profile} {t : Turn} (h : b.Layered) (ordered : b.apps.Ordered)
    (e : Effect c b p t) : t.board.Layered := by
  -- An application's own record is the one that is looked up under its number.
  have own : ∀ {app r₀ r}, b.apps.record? app = some r₀ → r ∈ b.apps → r.app = app → r = r₀ :=
    fun known hr e => ordered.distinct.eq hr (Roster.record?_mem known).1 (e.trans (Roster.record?_mem known).2.symm)
  cases e with
  | refused f => exact h
  | silent => exact h
  | registered p l fresh valid => exact ((h.enrol p).arbitrate (ordered_enrol ordered fresh) _ _).settle _
  | unregistered known => exact ⟨h.nodup, h.isGlobal, fun r hr => h.apps r (List.mem_filter.mp hr).1⟩
  | resuming known on => exact h.modify fun _ _ _ hr => hr.congr rfl rfl
  | postponed known valid blocked waits => exact h.modify fun _ _ _ hr => hr.congr rfl rfl
  | requested known valid free =>
    rw [requestNow_board known]
    exact (h.arbitrate ordered _ _).settle _
  | awaited known valid free id => exact ⟨h.nodup, h.isGlobal, h.apps⟩
  | unanswered id f => exact h.keepPending _
  | answered found owner => exact ((h.keepPending _).arbitrate ordered _ _).settle _
  | started isGlobal => exact (h.cover isGlobal).settle _
  | stopped isGlobal => exact ((h.uncover _).promote (ordered_uncover ordered _)).settle _
  | streaming known =>
    refine (h.modify fun r mem e hr => ?_).settle _
    obtain rfl := own known mem e
    exact hr.layStreaming
  | streamed known =>
    refine ((h.modify fun r mem e hr => ?_).promote (ordered_modify ordered (AppRecord.lift_app _))).settle _
    obtain rfl := own known mem e
    exact hr.liftStreaming

end Board.Layered

theorem Board.Reachable.layered {b : Board} (h : Reachable b) : b.Layered :=
  h.induct (P := Board.Layered) ⟨.nil, fun _ hk => (by cases hk), fun _ hr => (by cases hr)⟩
    (fun hb ih e => ih.effect hb.ordered e) fun keep ih => ih.keepPending keep

namespace Board
variable {b : Board} {k : Overlay}

theorem isUnder_iff : b.isUnder k = true ↔ k ∈ b.overlays ∨ ∃ r ∈ b.apps, k ∈ r.overlays := by
  simp [isUnder, AppRecord.isUnder]

/-- A global overlay that lies over an application is on for the head unit. -/
theorem Layered.isUnder_iff_of_isGlobal (h : b.Layered) (isGlobal : k.isGlobal = true) :
    b.isUnder k = true ↔ k ∈ b.overlays := by
  rw [isUnder_iff]
  refine ⟨fun under => ?_, Or.inl⟩
  rcases under with on | ⟨r, hr, covered⟩
  · exact on
  · exact ((h.apps r hr).mem_iff isGlobal).mpr covered

/-- A streaming overlay is on for applications alone. -/
theorem Layered.isUnder_iff_of_streaming (h : b.Layered) (streaming : k.isGlobal = false) :
    b.isUnder k = true ↔ ∃ r ∈ b.apps, k ∈ r.overlays := by
  rw [isUnder_iff]
  refine ⟨fun under => under.resolve_left fun on => ?_, Or.inr⟩
  rw [h.isGlobal k on] at streaming
  cases streaming

end Board

/-! ### Sessions -/

namespace Session.Reachable
variable {s : Session}

/-- The overlays that are on for the head unit are global ones, each once. Every stack has no overlay
    twice and consists of exactly these, in the same order, and of the application's own streaming overlay
    at most. So a global overlay is active where the head unit has it on, and a streaming one where some
    application is under it. -/
theorem overlays_coherent (h : s.Reachable) :
    s.board.overlays.Nodup ∧ (∀ k ∈ s.board.overlays, k.isGlobal = true) ∧
      (∀ r ∈ s.board.apps, r.overlays.Nodup ∧ r.overlays.filter Overlay.isGlobal = s.board.overlays ∧
        (r.overlays.filter (fun k => !k.isGlobal) = [] ∨
          r.overlays.filter (fun k => !k.isGlobal) = [r.capabilities.streamingOverlay])) ∧
      (∀ k : Overlay, k.isGlobal = true → (s.isActive (.overlay k) = true ↔ k ∈ s.board.overlays)) ∧
      ∀ k : Overlay, k.isGlobal = false →
        (s.isActive (.overlay k) = true ↔ ∃ r ∈ s.board.apps, k ∈ r.overlays) := by
  have layered := h.board.layered
  refine ⟨layered.nodup, layered.isGlobal, fun r hr => ?_, fun k isGlobal => ?_, fun k streaming => ?_⟩
  · exact ⟨(layered.apps r hr).nodup, (layered.apps r hr).inStep, (layered.apps r hr).local_cases⟩
  · exact layered.isUnder_iff_of_isGlobal isGlobal
  · exact layered.isUnder_iff_of_streaming streaming

/-- Overlays end in the middle of the stacks, and an application registers between two streams. -/
theorem overlays_coherent_interleaved :
    let s := [Command.call (.register ⟨⟨1⟩, ⟨11⟩, { navigation := true }⟩ .full),
      .call (.event .voiceStarted), .call (.event (.streamingStarted ⟨1⟩)), .call (.event .speechStarted),
      .call (.register ⟨⟨2⟩, ⟨12⟩, { media := true }⟩ .limited), .call (.event .voiceStopped),
      .call (.event (.signalled .phoneCall true)), .call (.event .voiceStarted),
      .call (.event (.streamingStarted ⟨2⟩))].foldl (fun s c => (s.run c).1) ({} : Session)
    s.board.overlays = [.speech, .phoneCall, .voiceSession] ∧
      s.board.apps.map AppRecord.overlays =
        [[.naviStreaming, .speech, .phoneCall, .voiceSession],
          [.speech, .phoneCall, .voiceSession, .videoStreaming]] ∧
      (∀ r ∈ s.board.apps, r.overlays.filter Overlay.isGlobal = s.board.overlays) ∧
      s.isActive (.overlay .naviStreaming) = true := by
  intro s
  have reachable : s.Reachable := (Session.Reachable.fresh {} {}).runs _
  obtain ⟨-, -, layers, -, streaming⟩ := overlays_coherent reachable
  have apps : s.board.apps.map AppRecord.overlays =
      [[.naviStreaming, .speech, .phoneCall, .voiceSession],
        [.speech, .phoneCall, .voiceSession, .videoStreaming]] := by cbv
  refine ⟨by cbv, apps, fun r hr => (layers r hr).2.1, (streaming .naviStreaming rfl).mpr ?_⟩
  obtain ⟨r, hr, e⟩ := List.mem_map.mp (apps ▸ List.mem_cons_self)
  exact ⟨r, hr, e ▸ List.mem_cons_self⟩

end Session.Reachable

end HeadUnit
