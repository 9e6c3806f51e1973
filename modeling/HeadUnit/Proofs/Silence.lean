import HeadUnit.Proofs.Cover
import HeadUnit.Proofs.Layers

/-! An interrupt that is on silences every application: those that were there when it began as well as
    those that register, resume, come to the front or start to stream while it lasts. It lies in every
    stack, and what it takes away no overlay above it gives back. -/

namespace HeadUnit

/-! ### What one overlay of a stack enforces -/

namespace Overlay
variable {k : Overlay} {stack : List Overlay} {c : Capabilities} {a : Bool} {s : Status}

theorem coverAll_notAudible (mem : k ∈ stack) (mutes : ∀ t, (k.cover c a t).audio = .notAudible) :
    (coverAll stack c a s).audio = .notAudible :=
  coverAll_of_mem (P := fun t => t.audio = .notAudible) mem mutes fun _ _ => notAudible_cover

theorem coverAll_notStreamable (mem : k ∈ stack) (darkens : ∀ t, (k.cover c a t).video = .notStreamable) :
    (coverAll stack c a s).video = .notStreamable :=
  coverAll_of_mem (P := fun t => t.video = .notStreamable) mem darkens fun _ _ => notStreamable_cover

/-- Speech leaves nothing audible that is not attenuated. -/
theorem coverAll_speech (mem : .speech ∈ stack) : (coverAll stack c a s).audio ≠ .audible := by
  refine coverAll_of_mem (P := fun t => t.audio ≠ .audible) mem (fun t => ?_) fun _ _ => not_audible_cover
  show (t.underSpeech c a).audio ≠ .audible
  rcases Status.underSpeech_audio_cases (c := c) (a := a) (s := t) with e | ⟨e, -⟩
  · simp [e]
  · simp [e]

/-- Where the head unit cannot attenuate, speech silences. -/
theorem coverAll_speech_silent (mem : .speech ∈ stack) : (coverAll stack c false s).audio = .notAudible :=
  coverAll_notAudible mem fun t => by
    rcases Status.underSpeech_audio_cases (c := c) (a := false) (s := t) with e | ⟨-, attenuates, -⟩
    · exact e
    · cases attenuates

/-- Once hidden, hidden under everything that lies above. -/
theorem coverAll_phoneCall_isHidden (mem : .phoneCall ∈ stack) (media : c.media = true)
    (other : (c.navigation || c.projection) = false) : (coverAll stack c a s).level.isHidden = true :=
  coverAll_of_mem (P := fun t => t.level.isHidden = true) mem
    (fun _ => Status.levelUnderCall_isHidden media other) fun _ _ => hidden_cover

theorem coverAll_phoneCall_ne_full (mem : .phoneCall ∈ stack)
    (display : (c.media || c.navigation || c.projection) = true) : (coverAll stack c a s).level ≠ .full :=
  coverAll_of_mem (P := fun t => t.level ≠ .full) mem (fun _ => Status.levelUnderCall_ne_full display)
    fun _ _ ne full => ne (full_of_cover full)

end Overlay

/-! ### Sessions -/

namespace Session.Reachable
variable {s : Session}

/-- While an interrupt is on, every application is presented as the interrupt demands. -/
theorem interrupts_silence (h : s.Reachable) {r : AppRecord} (hr : r ∈ s.board.apps) (attenuates : Bool) :
    let now := r.effective attenuates
    let c := r.capabilities
    (.safetyMode ∈ s.board.overlays → now.audio = .notAudible ∧ now.video = .notStreamable) ∧
      (.voiceSession ∈ s.board.overlays ∨ .phoneCall ∈ s.board.overlays → now.audio = .notAudible) ∧
      (.speech ∈ s.board.overlays →
        now.audio ≠ .audible ∧ (attenuates = false → now.audio = .notAudible)) ∧
      (.phoneCall ∈ s.board.overlays →
        (c.media = true ∨ c.navigation = true ∨ c.projection = true → now.level ≠ .full) ∧
          (c.media = true → c.navigation = false → c.projection = false →
            now.level = .absent ∨ now.level = .background)) := by
  have layered := h.board.layered.apps r hr
  have lies : ∀ {k : Overlay}, k.isGlobal = true → k ∈ s.board.overlays → k ∈ r.overlays := fun isGlobal =>
    (layered.mem_iff isGlobal).mp
  refine ⟨fun safety => ⟨?_, ?_⟩, fun session => ?_, fun speech => ⟨?_, ?_⟩, fun call => ⟨?_, ?_⟩⟩
  · exact Overlay.coverAll_notAudible (lies rfl safety) fun _ => rfl
  · exact Overlay.coverAll_notStreamable (lies rfl safety) fun _ => rfl
  · rcases session with voice | call
    · exact Overlay.coverAll_notAudible (lies rfl voice) fun _ => rfl
    · exact Overlay.coverAll_notAudible (lies rfl call) fun _ => rfl
  · exact Overlay.coverAll_speech (lies rfl speech)
  · rintro rfl
    exact Overlay.coverAll_speech_silent (lies rfl speech)
  · intro display
    refine Overlay.coverAll_phoneCall_ne_full (lies rfl call) ?_
    simpa [or_assoc] using display
  · intro media navigation projection
    have hidden := Overlay.coverAll_phoneCall_isHidden (c := r.capabilities) (a := attenuates) (s := r.regular)
      (lies rfl call) media (by rw [navigation, projection]; rfl)
    exact Level.isHidden_iff.mp hidden

/-- Speech and streaming lie above the phone call, and could both attenuate. -/
theorem interrupts_silence_below_streaming :
    let s := [Command.call (.register ⟨⟨1⟩, ⟨11⟩, { media := true }⟩ .full),
      .call (.event (.signalled .phoneCall true)), .call (.event .speechStarted),
      .call (.event (.streamingStarted ⟨1⟩))].foldl (fun s c => (s.run c).1) ({} : Session)
    let radio : AppRecord :=
      { profile := ⟨⟨1⟩, ⟨11⟩, { media := true }⟩
        regular := ⟨.full, .audible, .notStreamable, .main, .regular⟩
        overlays := [.phoneCall, .speech, .videoStreaming]
        told := ⟨.background, .notAudible, .notStreamable, .main, .overlay .phoneCall⟩ }
    s.board.apps = [radio] ∧ s.board.overlays = [.phoneCall, .speech] ∧
      (radio.effective true).audio = .notAudible ∧
      ((radio.effective true).level = .absent ∨ (radio.effective true).level = .background) := by
  intro s radio
  have apps : s.board.apps = [radio] := by cbv
  have overlays : s.board.overlays = [.phoneCall, .speech] := by cbv
  have reachable : s.Reachable := (Session.Reachable.fresh {} {}).runs _
  obtain ⟨-, silent, -, called⟩ := interrupts_silence reachable (apps ▸ List.mem_cons_self) true
  have call : .phoneCall ∈ s.board.overlays := overlays ▸ List.mem_cons_self
  exact ⟨apps, overlays, silent (.inr call), (called call).2 rfl rfl rfl⟩

end Session.Reachable

end HeadUnit
