import HeadUnit.Overlay.Cover

/-! What a stack of overlays makes of a status. No overlay raises a level, makes a silenced application
    heard or a dark one seen; so whatever one overlay of a stack enforces holds of the whole stack,
    wherever that overlay lies. -/

namespace HeadUnit

/-! ### Valid statuses -/

theorem Status.isValid_iff {s : Status} : s.isValid = true ↔
    s.level ≠ .invalid ∧ s.audio ≠ .invalid ∧ s.video ≠ .invalid ∧ s.context ≠ .invalid := by
  simp [Status.isValid, Level.isValid, Audio.isValid, Video.isValid, Context.isValid, and_assoc]

theorem Level.isForeground_of_not_hidden {l : Level} (valid : l ≠ .invalid) (h : l.isHidden = false) :
    l.isForeground = true := by
  cases l with
  | full => rfl
  | limited => rfl
  | invalid => exact absurd rfl valid
  | absent => cases h
  | background => cases h

theorem Level.isHidden_iff {l : Level} : l.isHidden = true ↔ l = .absent ∨ l = .background := by
  cases l <;> decide

namespace Status
variable {c : Capabilities} {a : Bool} {l : Level} {s : Status}

theorem levelUnderCall_cases (c : Capabilities) (l : Level) :
    levelUnderCall c l = l ∨ l.isHidden = false ∧
      ((levelUnderCall c l = .limited ∧ (c.navigation || c.projection) = true) ∨
        levelUnderCall c l = .background) := by
  unfold levelUnderCall
  split
  · exact Or.inl rfl
  · next hidden =>
    split
    · next h => exact Or.inr ⟨by simpa using hidden, Or.inl ⟨rfl, h⟩⟩
    · split
      · exact Or.inr ⟨by simpa using hidden, Or.inr rfl⟩
      · exact Or.inl rfl

/-- A phone call takes the display from media, navigation and projection. -/
theorem levelUnderCall_ne_full (h : (c.media || c.navigation || c.projection) = true) :
    levelUnderCall c l ≠ .full := by
  intro full
  unfold levelUnderCall at full
  split at full
  · next hidden =>
    rw [full] at hidden
    cases hidden
  · split at full
    · cases full
    · next hn =>
      split at full
      · cases full
      · next hm => simp_all

/-- A phone call hides media that neither navigates nor projects. -/
theorem levelUnderCall_isHidden (media : c.media = true) (other : (c.navigation || c.projection) = false) :
    (levelUnderCall c l).isHidden = true := by
  unfold levelUnderCall
  split
  · assumption
  · simp [other, Level.isHidden]

/-- The audio under speech or streaming is what it was, attenuated, or none. -/
theorem underSpeech_audio_cases : (s.underSpeech c a).audio = .notAudible ∨
    (s.underSpeech c a).audio = .attenuated ∧ a = true ∧ s.audio ≠ .notAudible := by
  unfold underSpeech
  dsimp only
  split
  · next h =>
    simp only [Bool.and_eq_true, decide_eq_true_eq] at h
    exact Or.inr ⟨rfl, h.1.1.1, h.1.2⟩
  · exact Or.inl rfl

theorem whileStreaming_audio_cases : (s.whileStreaming c a).audio = s.audio ∨
    (s.whileStreaming c a).audio = .notAudible ∨
    (s.whileStreaming c a).audio = .attenuated ∧ a = true ∧ s.audio ≠ .notAudible := by
  unfold whileStreaming
  dsimp only
  split
  · exact Or.inl rfl
  · split
    · next h =>
      simp only [Bool.and_eq_true, decide_eq_true_eq] at h
      exact Or.inr (Or.inr ⟨rfl, h.2, h.1⟩)
    · exact Or.inr (Or.inl rfl)

end Status

namespace Overlay
variable {k : Overlay} {c : Capabilities} {a : Bool} {s : Status}

/-! ### One overlay -/

/-- The level stays, save that a phone call takes the display, or the foreground, away. -/
theorem cover_level_cases (k : Overlay) (c : Capabilities) (a : Bool) (s : Status) :
    (k.cover c a s).level = s.level ∨ s.level.isHidden = false ∧
      ((k.cover c a s).level = .limited ∨ (k.cover c a s).level = .background) := by
  cases k with
  | phoneCall =>
    rcases Status.levelUnderCall_cases c s.level with h | ⟨hh, h⟩
    · exact Or.inl h
    · exact Or.inr ⟨hh, h.imp And.left id⟩
  | _ => exact Or.inl rfl

/-- The audio stays, or is attenuated where the head unit can and there was any, or falls silent. -/
theorem cover_audio_cases (k : Overlay) (c : Capabilities) (a : Bool) (s : Status) :
    (k.cover c a s).audio = s.audio ∨ (k.cover c a s).audio = .notAudible ∨
      ((k.cover c a s).audio = .attenuated ∧ a = true ∧ s.audio ≠ .notAudible) := by
  cases k with
  | speech => exact Or.inr Status.underSpeech_audio_cases
  | naviStreaming => exact Status.whileStreaming_audio_cases
  | videoStreaming => exact Status.whileStreaming_audio_cases
  | _ => exact Or.inr (Or.inl rfl)

/-- The video stays or goes dark. -/
theorem cover_video_cases (k : Overlay) (c : Capabilities) (a : Bool) (s : Status) :
    (k.cover c a s).video = s.video ∨ (k.cover c a s).video = .notStreamable := by
  have ite : ∀ (p : Prop) [Decidable p] (v : Video), (if p then v else .notStreamable) = v ∨
      (if p then v else Video.notStreamable) = .notStreamable := fun p _ v => by
    split
    · exact Or.inl rfl
    · exact Or.inr rfl
  cases k with
  | safetyMode => exact Or.inr rfl
  | phoneCall =>
    simp only [cover, Status.underCall, Status.onLayer]
    split
    · exact Or.inr rfl
    · exact Or.inl rfl
  | naviStreaming => exact ite ..
  | videoStreaming => exact ite ..
  | _ => exact Or.inl rfl

theorem full_of_cover (h : (k.cover c a s).level = .full) : s.level = .full := by
  rcases cover_level_cases k c a s with e | ⟨-, e | e⟩
  · exact e ▸ h
  · rw [e] at h
    cases h
  · rw [e] at h
    cases h

/-- A valid status that a cover leaves in the foreground was there before. -/
theorem isForeground_of_cover (valid : s.level ≠ .invalid) (h : (k.cover c a s).level.isForeground = true) :
    s.level.isForeground = true := by
  rcases cover_level_cases k c a s with e | ⟨hidden, -⟩
  · exact e ▸ h
  · exact Level.isForeground_of_not_hidden valid hidden

theorem hidden_cover (h : s.level.isHidden = true) : (k.cover c a s).level.isHidden = true := by
  rcases cover_level_cases k c a s with e | ⟨hidden, -⟩
  · exact e ▸ h
  · rw [h] at hidden
    cases hidden

theorem notAudible_cover (h : s.audio = .notAudible) : (k.cover c a s).audio = .notAudible := by
  rcases cover_audio_cases k c a s with e | e | ⟨-, -, ne⟩
  · exact e.trans h
  · exact e
  · exact absurd h ne

theorem not_audible_cover (h : s.audio ≠ .audible) : (k.cover c a s).audio ≠ .audible := by
  rcases cover_audio_cases k c a s with e | e | ⟨e, -, -⟩
  · exact e ▸ h
  · simp [e]
  · simp [e]

theorem notStreamable_cover (h : s.video = .notStreamable) : (k.cover c a s).video = .notStreamable :=
  (cover_video_cases k c a s).elim (·.trans h) id

theorem isValid_cover (h : s.isValid = true) : (k.cover c a s).isValid = true := by
  obtain ⟨hl, ha, hv, hx⟩ := Status.isValid_iff.mp h
  refine Status.isValid_iff.mpr ⟨?_, ?_, ?_, ?_⟩
  · rcases cover_level_cases k c a s with e | ⟨-, e | e⟩ <;> simp [e, hl]
  · rcases cover_audio_cases k c a s with e | e | ⟨e, -⟩ <;> simp [e, ha]
  · rcases cover_video_cases k c a s with e | e <;> simp [e, hv]
  · rw [cover_context]
    exact hx

/-! ### Stacks -/

theorem coverAll_induct {P : Status → Prop} {stack : List Overlay} (base : P (s.onLayer .regular))
    (step : ∀ k t, P t → P (cover k c a t)) : P (coverAll stack c a s) := by
  unfold coverAll
  revert base
  generalize s.onLayer .regular = t
  induction stack generalizing t with
  | nil => exact id
  | cons k ks ih =>
    intro ht
    rw [List.foldl_cons]
    exact ih _ (step k t ht)

/-- What one overlay brings about and every overlay keeps holds of a stack with that overlay. -/
theorem coverAll_of_mem {P : Status → Prop} {stack : List Overlay} (mem : k ∈ stack)
    (made : ∀ t, P (cover k c a t)) (kept : ∀ k t, P t → P (cover k c a t)) : P (coverAll stack c a s) := by
  obtain ⟨below, above, rfl⟩ := List.append_of_mem mem
  have split : coverAll (below ++ k :: above) c a s =
      above.foldl (fun s k => k.cover c a s) (k.cover c a (coverAll below c a s)) := by
    simp [coverAll, List.foldl_append]
  rw [split]
  generalize ht : k.cover c a (coverAll below c a s) = t
  have base : P t := ht ▸ made _
  clear ht split mem
  induction above generalizing t with
  | nil => exact base
  | cons k' ks ih =>
    rw [List.foldl_cons]
    exact ih _ (kept k' t base)

theorem full_of_coverAll {stack : List Overlay} (h : (coverAll stack c a s).level = .full) :
    s.level = .full := by
  revert h
  exact coverAll_induct (P := fun t => t.level = .full → s.level = .full) id fun _ _ ih h =>
    ih (full_of_cover h)

theorem isValid_coverAll {stack : List Overlay} (h : s.isValid = true) :
    (coverAll stack c a s).isValid = true :=
  coverAll_induct (P := fun t => t.isValid = true) h fun _ _ => isValid_cover

theorem isForeground_of_coverAll {stack : List Overlay} (valid : s.level ≠ .invalid)
    (h : (coverAll stack c a s).level.isForeground = true) : s.level.isForeground = true := by
  have keeps : (coverAll stack c a s).level ≠ .invalid ∧
      ((coverAll stack c a s).level.isForeground = true → s.level.isForeground = true) := by
    refine coverAll_induct (P := fun t => t.level ≠ .invalid ∧
      (t.level.isForeground = true → s.level.isForeground = true)) ⟨valid, id⟩ ?_
    intro k t ⟨ht, ih⟩
    refine ⟨?_, fun h => ih (isForeground_of_cover ht h)⟩
    rcases cover_level_cases k c a t with e | ⟨-, e | e⟩ <;> simp [e, ht]
  exact keeps.2 h

end Overlay

end HeadUnit
