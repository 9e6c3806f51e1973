import HeadUnit.Proofs.Cover
import Mathlib.Data.List.Dedup
import Mathlib.Data.List.Induction
import Mathlib.Data.List.Perm.Basic

/-! What a stack of overlays makes of a status depends on which overlays are on, and on nothing else about the stack.
    Two overlays next to each other may change places: speech and streaming weaken the audio alike, speech goes by
    the level besides, and a phone call, which alone changes the level, silences anyway. A second overlay of a kind
    adds nothing. Only the layer tells which overlay lies on top. -/

namespace HeadUnit

namespace Status
variable {c : Capabilities} {a : Bool} {l : Level} {s t : Status}

theorem eq_of_axes (level : s.level = t.level) (audio : s.audio = t.audio) (video : s.video = t.video)
    (context : s.context = t.context) (layer : s.layer = t.layer) : s = t := by
  obtain ⟨_, _, _, _, _⟩ := s
  obtain ⟨_, _, _, _, _⟩ := t
  cases level
  cases audio
  cases video
  cases context
  cases layer
  rfl

/-- The second call finds nothing left to take away. -/
@[simp] theorem levelUnderCall_levelUnderCall :
    levelUnderCall c (levelUnderCall c l) = levelUnderCall c l := by
  rcases levelUnderCall_cases c l with same | ⟨-, ⟨limited, display⟩ | background⟩
  · rw [same, same]
  · rw [limited]
    simp [levelUnderCall, Level.isHidden, display]
  · rw [background]
    rfl

end Status

/-! ### Axis by axis -/

/-- Audio that is not silenced, but must not be the loudest. -/
def Audio.softened : Audio → Audio
  | .notAudible => .notAudible
  | .attenuated | .audible | .invalid => .attenuated

@[simp] theorem Audio.softened_softened (x : Audio) : x.softened.softened = x.softened := by
  cases x <;> rfl

namespace Status
variable {c : Capabilities} {a : Bool} {s : Status}

theorem underSpeech_audio : (s.underSpeech c a).audio =
    if a && c.isAudio && s.level.isForeground then s.audio.softened else .notAudible := by
  cases h : s.audio <;> simp [underSpeech, h, Audio.softened, and_assoc]

theorem whileStreaming_audio : (s.whileStreaming c a).audio =
    if c.navigation then s.audio else if a then s.audio.softened else .notAudible := by
  cases h : s.audio <;> simp [whileStreaming, h, Audio.softened]

/-- Speech over a streaming application, or streaming under speech. -/
theorem underSpeech_whileStreaming_audio :
    ((s.whileStreaming c a).underSpeech c a).audio = ((s.underSpeech c a).whileStreaming c a).audio := by
  rw [underSpeech_audio, whileStreaming_audio, whileStreaming_audio, underSpeech_audio]
  change (if a && c.isAudio && s.level.isForeground then _ else _) = _
  cases a
  · simp
  · cases c.navigation <;> cases c.isAudio <;> cases s.level.isForeground <;> simp [Audio.softened]

end Status

namespace Overlay
variable {j k : Overlay} {c : Capabilities} {a : Bool} {s : Status}

/-- Silences, whatever it lies over. -/
def silences : Overlay → Bool
  | .voiceSession | .phoneCall | .safetyMode => true
  | .speech | .naviStreaming | .videoStreaming => false

/-- Puts out the video of an application at a level. -/
def darkens (c : Capabilities) (l : Level) : Overlay → Bool
  | .phoneCall => (Status.levelUnderCall c l).isHidden
  | .safetyMode => true
  | .naviStreaming | .videoStreaming => !c.isVideo
  | .voiceSession | .speech => false

/-- An overlay reads the axes under it, not the layer. -/
theorem cover_onLayer (k : Overlay) (c : Capabilities) (a : Bool) (s : Status) (l : Layer) :
    k.cover c a (s.onLayer l) = k.cover c a s := by
  cases k <;> rfl

theorem cover_level (k : Overlay) (c : Capabilities) (a : Bool) (s : Status) :
    (k.cover c a s).level = if k = .phoneCall then Status.levelUnderCall c s.level else s.level := by
  cases k <;> rfl

theorem cover_video (k : Overlay) (c : Capabilities) (a : Bool) (s : Status) :
    (k.cover c a s).video = if k.darkens c s.level then .notStreamable else s.video := by
  cases k with
  | naviStreaming | videoStreaming =>
    cases h : c.isVideo <;> simp [cover, Status.whileStreaming, Status.onLayer, darkens, h]
  | _ => rfl

theorem cover_audio_of_silences (h : k.silences = true) : (k.cover c a s).audio = .notAudible := by
  cases k with
  | speech | naviStreaming | videoStreaming => cases h
  | _ => rfl

/-- Whether an overlay darkens does not depend on the overlays under it. -/
theorem darkens_cover (k j : Overlay) (c : Capabilities) (a : Bool) (s : Status) :
    k.darkens c (j.cover c a s).level = k.darkens c s.level := by
  cases k with
  | phoneCall =>
    rw [cover_level]
    split
    · simp [darkens]
    · rfl
  | _ => rfl

theorem cover_level_comm (j k : Overlay) (c : Capabilities) (a : Bool) (s : Status) :
    (k.cover c a (j.cover c a s)).level = (j.cover c a (k.cover c a s)).level := by
  simp only [cover_level]
  by_cases hj : j = .phoneCall <;> by_cases hk : k = .phoneCall <;> simp [hj, hk]

theorem cover_video_comm (j k : Overlay) (c : Capabilities) (a : Bool) (s : Status) :
    (k.cover c a (j.cover c a s)).video = (j.cover c a (k.cover c a s)).video := by
  rw [cover_video, cover_video, cover_video, cover_video, darkens_cover, darkens_cover]
  cases j.darkens c s.level <;> cases k.darkens c s.level <;> rfl

theorem cover_audio_comm (j k : Overlay) (c : Capabilities) (a : Bool) (s : Status) :
    (k.cover c a (j.cover c a s)).audio = (j.cover c a (k.cover c a s)).audio := by
  by_cases hj : j.silences = true
  · rw [notAudible_cover (cover_audio_of_silences hj), cover_audio_of_silences hj]
  by_cases hk : k.silences = true
  · rw [notAudible_cover (cover_audio_of_silences hk), cover_audio_of_silences hk]
  -- What is left are speech and the two kinds of streaming, and these two do the same.
  cases j with
  | speech =>
    cases k with
    | speech => rfl
    | naviStreaming | videoStreaming => exact Status.underSpeech_whileStreaming_audio.symm
    | _ => exact absurd rfl hk
  | naviStreaming | videoStreaming =>
    cases k with
    | speech => exact Status.underSpeech_whileStreaming_audio
    | naviStreaming | videoStreaming => rfl
    | _ => exact absurd rfl hk
  | _ => exact absurd rfl hj

theorem cover_audio_cover (k : Overlay) (c : Capabilities) (a : Bool) (s : Status) :
    (k.cover c a (k.cover c a s)).audio = (k.cover c a s).audio := by
  have streaming : ((s.whileStreaming c a).whileStreaming c a).audio = (s.whileStreaming c a).audio := by
    simp only [Status.whileStreaming_audio]
    cases c.navigation <;> cases a <;> simp
  cases k with
  | speech =>
    change ((s.underSpeech c a).underSpeech c a).audio = (s.underSpeech c a).audio
    rw [Status.underSpeech_audio, Status.underSpeech_audio]
    change (if a && c.isAudio && s.level.isForeground then _ else _) = _
    split <;> simp
  | naviStreaming | videoStreaming => exact streaming
  | _ => rfl

theorem cover_cover (k : Overlay) (c : Capabilities) (a : Bool) (s : Status) :
    k.cover c a (k.cover c a s) = k.cover c a s := by
  refine Status.eq_of_axes ?_ ?_ ?_ ?_ rfl
  · simp only [cover_level]
    split <;> simp
  · exact cover_audio_cover k c a s
  · rw [cover_video, darkens_cover, cover_video]
    split <;> rfl
  · simp

end Overlay

/-! ### Any stack -/

/-- What an overlay does to the axes. The layer stays as it is. -/
def Status.veiled (c : Capabilities) (a : Bool) (s : Status) (k : Overlay) : Status :=
  (k.cover c a s).onLayer s.layer

/-- The layer of what a stack presents: the overlay on top, or none. -/
def Overlay.topmost (stack : List Overlay) : Layer := stack.getLast?.elim .regular .overlay

namespace Status
variable {j k : Overlay} {ks ls : List Overlay} {c : Capabilities} {a : Bool} {s : Status}

theorem veiled_veiled (j k : Overlay) (c : Capabilities) (a : Bool) (s : Status) :
    (s.veiled c a j).veiled c a k = (k.cover c a (j.cover c a s)).onLayer s.layer := by
  rw [veiled, veiled, Overlay.cover_onLayer]
  rfl

theorem veiled_comm (j k : Overlay) (c : Capabilities) (a : Bool) (s : Status) :
    (s.veiled c a j).veiled c a k = (s.veiled c a k).veiled c a j := by
  rw [veiled_veiled, veiled_veiled]
  refine eq_of_axes ?_ ?_ ?_ ?_ rfl
  · exact Overlay.cover_level_comm j k c a s
  · exact Overlay.cover_audio_comm j k c a s
  · exact Overlay.cover_video_comm j k c a s
  · simp [onLayer]

theorem veiled_again (k : Overlay) (c : Capabilities) (a : Bool) (s : Status) :
    (s.veiled c a k).veiled c a k = s.veiled c a k := by
  rw [veiled_veiled, Overlay.cover_cover]
  rfl

theorem foldl_veiled_perm (perm : ks.Perm ls) (s : Status) :
    ks.foldl (veiled c a) s = ls.foldl (veiled c a) s :=
  perm.foldl_eq' (fun j _ k _ s => veiled_comm j k c a s) s

/-- An overlay that is still to come adds nothing where it already lies. -/
theorem foldl_veiled_of_mem (mem : k ∈ ks) (s : Status) :
    ks.foldl (veiled c a) (s.veiled c a k) = ks.foldl (veiled c a) s := by
  have first := List.perm_cons_erase mem
  rw [foldl_veiled_perm first, foldl_veiled_perm first, List.foldl_cons, List.foldl_cons, veiled_again]

theorem foldl_veiled_dedup (ks : List Overlay) (s : Status) :
    ks.dedup.foldl (veiled c a) s = ks.foldl (veiled c a) s := by
  induction ks generalizing s with
  | nil => rfl
  | cons k ks ih =>
    by_cases again : k ∈ ks
    · rw [List.dedup_cons_of_mem again, ih, List.foldl_cons, foldl_veiled_of_mem again]
    · rw [List.dedup_cons_of_notMem again, List.foldl_cons, List.foldl_cons, ih]

end Status

namespace Overlay
variable {ks ls : List Overlay} {c : Capabilities} {a : Bool} {s : Status}

theorem coverAll_eq_veiled (stack : List Overlay) (c : Capabilities) (a : Bool) (s : Status) :
    coverAll stack c a s = (stack.foldl (Status.veiled c a) (s.onLayer .regular)).onLayer (topmost stack) := by
  induction stack using List.reverseRecOn with
  | nil => rfl
  | append_singleton stack k ih =>
    rw [coverAll_append, ih, cover_onLayer, List.foldl_append, topmost, List.getLast?_concat]
    rfl

/-- Two stacks with the same overlays on them, in whatever order and however often, present the same axes. Each
    presents them on the layer of its topmost overlay, or of the regular status if there is none. -/
theorem coverAll_by_kinds (same : ∀ k, k ∈ ks ↔ k ∈ ls) (c : Capabilities) (a : Bool) (s : Status) :
    (coverAll ks c a s).sameAxes (coverAll ls c a s) = true ∧
      (coverAll ks c a s).layer = topmost ks ∧ (coverAll ls c a s).layer = topmost ls := by
  have perm : ks.dedup.Perm ls.dedup :=
    (List.perm_ext_iff_of_nodup ks.nodup_dedup ls.nodup_dedup).mpr fun k => by
      rw [List.mem_dedup, List.mem_dedup, same]
  have axes : ks.foldl (Status.veiled c a) (s.onLayer .regular) = ls.foldl (Status.veiled c a) (s.onLayer .regular) :=
    calc ks.foldl (Status.veiled c a) (s.onLayer .regular)
      _ = ks.dedup.foldl (Status.veiled c a) (s.onLayer .regular) := (Status.foldl_veiled_dedup ks _).symm
      _ = ls.dedup.foldl (Status.veiled c a) (s.onLayer .regular) := Status.foldl_veiled_perm perm _
      _ = ls.foldl (Status.veiled c a) (s.onLayer .regular) := Status.foldl_veiled_dedup ls _
  rw [coverAll_eq_veiled, coverAll_eq_veiled, axes]
  exact ⟨Status.sameAxes_refl _, rfl, rfl⟩

/-- A guide that is on a phone call, spoken over and streaming, with its overlays in two orders and two of them
    twice. The status under them is not valid on every axis. -/
theorem coverAll_by_kinds_guide :
    let guide : Capabilities := { navigation := true, media := true }
    let held : Status := ⟨.full, .invalid, .streamable, .invalid, .current⟩
    let ks : List Overlay := [.speech, .phoneCall, .naviStreaming, .speech, .naviStreaming]
    let ls : List Overlay := [.phoneCall, .naviStreaming, .speech]
    (∀ k, k ∈ ks ↔ k ∈ ls) ∧
      coverAll ks guide true held = ⟨.limited, .notAudible, .streamable, .invalid, .overlay .naviStreaming⟩ ∧
      coverAll ls guide true held = ⟨.limited, .notAudible, .streamable, .invalid, .overlay .speech⟩ ∧
      (coverAll ks guide true held).sameAxes (coverAll ls guide true held) = true := by
  intro guide held ks ls
  have same : ∀ k, k ∈ ks ↔ k ∈ ls := by
    intro k
    cases k <;> decide
  exact ⟨same, by decide, by decide, (coverAll_by_kinds same guide true held).1⟩

end Overlay

end HeadUnit
