import HeadUnit.Proofs.Bystanders

/-! Overlays grant nothing. Speech and streaming set the audio and a phone call sets the level, but each of them only
    where there was as much before; so a layer never presents more than the layer under it, and a whole stack never
    more than the regular status. -/

namespace HeadUnit

theorem Level.rank_of_not_hidden {l : Level} (h : l.isHidden = false) : Level.rank .limited ≤ l.rank := by
  cases l with
  | absent | background => cases h
  | _ => decide

theorem Audio.loudness_pos {x : Audio} (h : x ≠ .notAudible) : 0 < x.loudness := by
  cases x with
  | notAudible => exact absurd rfl h
  | _ => decide

/-- The first status goes beyond the second on no axis, and has its context. -/
structure Status.Within (s t : Status) : Prop where
  level : s.level.rank ≤ t.level.rank
  audio : s.audio.loudness ≤ t.audio.loudness
  video : s.video = .streamable → t.video = .streamable
  context : s.context = t.context

namespace Status.Within
variable {s t u : Status}

theorem refl (s : Status) : s.Within s := ⟨le_rfl, le_rfl, id, rfl⟩

theorem trans (h : s.Within t) (h' : t.Within u) : s.Within u where
  level := h.level.trans h'.level
  audio := h.audio.trans h'.audio
  video := h'.video ∘ h.video
  context := h.context.trans h'.context

theorem cover (k : Overlay) (c : Capabilities) (a : Bool) (s : Status) : (k.cover c a s).Within s where
  level := by
    rcases Overlay.cover_level_cases k c a s with same | ⟨shown, limited | background⟩
    · rw [same]
    · rw [limited]
      exact Level.rank_of_not_hidden shown
    · rw [background]
      exact (show Level.rank .background ≤ Level.rank .limited by decide).trans (Level.rank_of_not_hidden shown)
  audio := by
    rcases Overlay.cover_audio_cases k c a s with same | silent | ⟨attenuated, -, heard⟩
    · rw [same]
    · rw [silent]
      exact Nat.zero_le _
    · rw [attenuated]
      exact Audio.loudness_pos heard
  video lit := by
    rcases Overlay.cover_video_cases k c a s with same | dark
    · exact same ▸ lit
    · rw [dark] at lit
      cases lit
  context := Overlay.cover_context k c a s

/-- What lies further up takes away more. -/
theorem coverAll_append (stack above : List Overlay) (c : Capabilities) (a : Bool) (s : Status) :
    (Overlay.coverAll (stack ++ above) c a s).Within (Overlay.coverAll stack c a s) := by
  induction above using List.reverseRecOn with
  | nil =>
    rw [List.append_nil]
    exact refl _
  | append_singleton above k ih =>
    rw [← List.append_assoc, Overlay.coverAll_append]
    exact (cover k c a _).trans ih

theorem coverAll (stack : List Overlay) (c : Capabilities) (a : Bool) (s : Status) :
    (Overlay.coverAll stack c a s).Within s :=
  (coverAll_append [] stack c a s).trans ⟨le_rfl, le_rfl, id, rfl⟩

end Status.Within

/-- A stack makes of a valid status a valid one that goes beyond it on no axis, and further overlays on top of the
    stack go beyond the stack on none. -/
theorem Overlay.coverAll_grants_nothing {s : Status} (valid : s.isValid = true) (c : Capabilities) (a : Bool)
    (stack above : List Overlay) :
    (coverAll stack c a s).isValid = true ∧ (coverAll stack c a s).Within s ∧
      (coverAll (stack ++ above) c a s).Within (coverAll stack c a s) :=
  ⟨isValid_coverAll valid, .coverAll stack c a s, .coverAll_append stack above c a s⟩

/-- A guide with music streams and is spoken over; then it is called, and at last put into safety mode. -/
theorem Overlay.coverAll_grants_nothing_guide :
    let guide : Capabilities := { navigation := true, media := true }
    let held : Status := ⟨.full, .audible, .streamable, .alert, .regular⟩
    let quiet : Status := ⟨.full, .attenuated, .streamable, .alert, .overlay .speech⟩
    let least : Status := ⟨.limited, .notAudible, .notStreamable, .alert, .overlay .safetyMode⟩
    held.isValid = true ∧ coverAll [.naviStreaming, .speech] guide true held = quiet ∧
      coverAll [.naviStreaming, .speech, .phoneCall, .safetyMode] guide true held = least ∧
      quiet.isValid = true ∧ quiet.Within held ∧ least.Within quiet := by
  intro guide held quiet least
  have valid : held.isValid = true := rfl
  have below : coverAll [.naviStreaming, .speech] guide true held = quiet := rfl
  have whole : coverAll [.naviStreaming, .speech, .phoneCall, .safetyMode] guide true held = least := rfl
  have grants := coverAll_grants_nothing valid guide true [.naviStreaming, .speech] [.phoneCall, .safetyMode]
  exact ⟨valid, below, whole, grants⟩

end HeadUnit
