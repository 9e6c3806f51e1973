import HeadUnit.Proofs.ConflictTable

/-! Requests that do not get in each other's way. What several requests leave to a bystander is the same in any
    order: one of them is enough to send it back, or to take the display from it. So two requests commute as
    soon as neither takes anything from the other's asker. -/

namespace HeadUnit

/-! ### Bystanders -/

/-- A foreground request is after the audio focus of the asker's classes. -/
def Capabilities.contests (asker : Capabilities) (asked : Level) (c : Capabilities) : Bool :=
  asked.isForeground && asker.sharesClass c

namespace Status
variable {a b c : Capabilities} {l m : Level} {held : Status}

@[simp] theorem sentBack_byTable : held.sentBack.byTable a l c = held.sentBack := byTable_of_hidden (Or.inr rfl)

theorem byTable_of_limited (h : held.level = .limited) :
    held.byTable a l c = if a.contests l c then held.sentBack else held := by
  cases l <;> simp [byTable, Capabilities.contests, h, Level.isForeground]

theorem byTable_of_plain (h : held.level = .full) (plain : c.isAudio = false) :
    held.byTable a l c = if l = .full then held.sentBack else held := by
  cases l <;> simp [byTable, h, plain]

theorem byTable_of_audio (h : held.level = .full) (audio : c.isAudio = true) : held.byTable a l c =
    if a.contests l c then held.sentBack else if l = .full then held.leftAudio c else held := by
  cases shares : a.sharesClass c <;> cases l <;>
    simp [byTable, Capabilities.contests, h, audio, shares, Level.isForeground]

@[simp] theorem leftAudio_byTable : (held.leftAudio c).byTable a l c =
    if a.contests l c then held.sentBack else held.leftAudio c := byTable_of_limited rfl

theorem byTable_byTable_of_limited (h : held.level = .limited) : (held.byTable a l c).byTable b m c =
    if a.contests l c || b.contests m c then held.sentBack else held := by
  rw [byTable_of_limited h]
  split
  · next ha => simp [ha]
  · next ha => simp [ha, byTable_of_limited h]

theorem byTable_byTable_of_plain (h : held.level = .full) (plain : c.isAudio = false) :
    (held.byTable a l c).byTable b m c = if l = .full ∨ m = .full then held.sentBack else held := by
  rw [byTable_of_plain h plain]
  split
  · next hl => simp [hl]
  · next hl => simp [hl, byTable_of_plain h plain]

theorem byTable_byTable_of_audio (h : held.level = .full) (audio : c.isAudio = true) :
    (held.byTable a l c).byTable b m c = if a.contests l c || b.contests m c then held.sentBack
      else if l = .full ∨ m = .full then held.leftAudio c else held := by
  rw [byTable_of_audio h audio]
  split
  · next ha => simp [ha]
  · next ha =>
    split
    · next hl =>
      rw [leftAudio_byTable, if_pos (Or.inl hl)]
      simp [ha]
    · next hl => simp [ha, hl, byTable_of_audio h audio]

theorem byTable_comm : (held.byTable a l c).byTable b m c = (held.byTable b m c).byTable a l c := by
  by_cases foreground : held.level.isForeground = true
  · rcases Level.isForeground_iff.mp foreground with full | limited
    · cases audio : c.isAudio with
      | false => simp only [byTable_byTable_of_plain full audio, or_comm]
      | true => simp only [byTable_byTable_of_audio full audio, Bool.or_comm, or_comm]
    · simp only [byTable_byTable_of_limited limited, Bool.or_comm]
  · have hidden : ∀ {a : Capabilities} {l : Level}, held.byTable a l c = held :=
      byTable_of_hidden (Or.inr (by simpa using foreground))
    rw [hidden, hidden, hidden]

/-- A request that is neither after the focus nor after the display that is held takes nothing. -/
theorem byTable_of_apart (focus : a.contests l c = false) (display : ¬(l = .full ∧ held.level = .full)) :
    held.byTable a l c = held := by
  by_cases foreground : held.level.isForeground = true
  · rcases Level.isForeground_iff.mp foreground with full | limited
    · have other : l ≠ .full := fun hl => display ⟨hl, full⟩
      cases audio : c.isAudio with
      | false => rw [byTable_of_plain full audio, if_neg other]
      | true => simp [byTable_of_audio full audio, focus, other]
    · simp [byTable_of_limited limited, focus]
  · exact byTable_of_hidden (Or.inr (by simpa using foreground))

end Status

/-! ### Two requests -/

/-- Two requests of different applications for which there is room side by side: not both are for the display,
    and if both are for the foreground, the applications share no class. -/
structure Status.Compatible (c d : Capabilities) (s t : Status) : Prop where
  display : ¬(s.level = .full ∧ t.level = .full)
  focus : s.level.isForeground = true → t.level.isForeground = true → c.sharesClass d = false

namespace Status.Compatible
variable {c d : Capabilities} {s t : Status}

theorem symm (h : Compatible c d s t) : Compatible d c t s where
  display := fun ⟨ht, hs⟩ => h.display ⟨hs, ht⟩
  focus ht hs := by
    rw [Capabilities.sharesClass_comm]
    exact h.focus hs ht

/-- What the first has got, the second does not take away. -/
theorem keeps (h : Compatible c d s t) : (s.onLayer .regular).byTable d t.level c = s.onLayer .regular := by
  by_cases hidden : t.level.isForeground = false ∨ s.level.isForeground = false
  · exact byTable_of_hidden hidden
  obtain ⟨ft, fs⟩ : t.level.isForeground = true ∧ s.level.isForeground = true := by simpa using hidden
  refine byTable_of_apart ?_ fun both => h.display both.symm
  rw [Capabilities.contests, Capabilities.sharesClass_comm, h.focus fs ft, Bool.and_false]

end Status.Compatible

namespace AppRecord
variable {x y r : AppRecord} {s t : Status}

theorem contend_pair_eq (r : AppRecord) : contend y t (contend x s r) =
    { r with
      regular := if r.app = y.app then t.onLayer .regular
        else (if r.app = x.app then s.onLayer .regular
          else r.regular.byTable x.capabilities s.level r.capabilities).byTable
            y.capabilities t.level r.capabilities } := by
  rw [contend_eq, contend_regular, contend_regular, contend_app, contend_capabilities, contend_eq]

/-- The record of either asker is told by its number. -/
theorem contend_pair_comm (ne : x.app ≠ y.app) (isX : r.app = x.app → r = x) (isY : r.app = y.app → r = y)
    (room : Status.Compatible x.capabilities y.capabilities s t) :
    contend y t (contend x s r) = contend x s (contend y t r) := by
  rw [contend_pair_eq, contend_pair_eq]
  by_cases hx : r.app = x.app
  · obtain rfl := isX hx
    simp [ne, room.keeps]
  · by_cases hy : r.app = y.app
    · obtain rfl := isY hy
      simp [hx, room.symm.keeps]
    · simp only [if_neg hx, if_neg hy, Status.byTable_comm]

end AppRecord

namespace Roster.Distinct
variable {apps : Roster} {x y : AppRecord}

theorem arbitrate_pair_eq (h : apps.Distinct) (hx : x ∈ apps) (hy : y ∈ apps) (s t : Status) :
    (apps.arbitrate x.app s).arbitrate y.app t =
      apps.map fun r => AppRecord.contend y t (AppRecord.contend x s r) := by
  have known : record? y.app (apps.map (AppRecord.contend x s)) = some (AppRecord.contend x s y) := by
    rw [record?_map (fun _ => AppRecord.contend_app), h.record?_eq_some hy]
    rfl
  rw [arbitrate_eq_map h (h.record?_eq_some hx),
    arbitrate_eq_map (h.map fun _ => AppRecord.contend_app) known, List.map_map]
  exact List.map_congr_left fun r _ => AppRecord.contend_congr_asker AppRecord.contend_profile

end Roster.Distinct

namespace Board

theorem tryArbitrate_pair {b : Board} {app other : AppId} (first : (b.apps.record? app).isSome = true)
    (second : (b.apps.record? other).isSome = true) (s t : Status) :
    (b.tryArbitrate app s >>= fun b => b.tryArbitrate other t) = .ok ((b.arbitrate app s).arbitrate other t) := by
  have still : ((b.arbitrate app s).apps.record? other).isSome = true := by
    rw [arbitrate, Roster.isSome_record?_arbitrate]
    exact second
  rw [tryArbitrate_of_registered first]
  exact tryArbitrate_of_registered still t

/-- On every board with distinct numbers, whatever the regular statuses: two requests of different applications,
    not both for the display and not both for the foreground of a shared class, come to the same board in
    either order. -/
theorem independent_requests_commute {b : Board} (distinct : b.apps.Distinct) {x y : AppRecord} (hx : x ∈ b.apps)
    (hy : y ∈ b.apps) (ne : x.app ≠ y.app) {s t : Status} (display : ¬(s.level = .full ∧ t.level = .full))
    (focus : s.level.isForeground = true → t.level.isForeground = true →
      x.capabilities.sharesClass y.capabilities = false) :
    ∃ after, (b.tryArbitrate x.app s >>= fun b => b.tryArbitrate y.app t) = .ok after ∧
      (b.tryArbitrate y.app t >>= fun b => b.tryArbitrate x.app s) = .ok after := by
  have knownX := Roster.isSome_record?_of_mem hx
  have knownY := Roster.isSome_record?_of_mem hy
  have commute : (b.apps.arbitrate x.app s).arbitrate y.app t = (b.apps.arbitrate y.app t).arbitrate x.app s := by
    rw [distinct.arbitrate_pair_eq hx hy, distinct.arbitrate_pair_eq hy hx]
    exact List.map_congr_left fun r hr =>
      AppRecord.contend_pair_comm ne (distinct.eq hr hx) (distinct.eq hr hy) ⟨display, focus⟩
  refine ⟨_, tryArbitrate_pair knownX knownY s t, ?_⟩
  rw [tryArbitrate_pair knownY knownX]
  simp only [arbitrate, commute]

/-- Media asks for the display, held by voice, and voice for `LIMITED`. The navigation with voice is behind the
    media without the display, and has to go for voice; a plain application at `LIMITED` is in nobody's way. -/
theorem independent_requests_commute_chain :
    let media : AppRecord :=
      { profile := ⟨⟨1⟩, ⟨11⟩, { media := true }⟩
        regular := ⟨.background, .notAudible, .notStreamable, .main, .regular⟩ }
    let voice : AppRecord :=
      { profile := ⟨⟨2⟩, ⟨12⟩, { voice := true }⟩, regular := ⟨.full, .audible, .notStreamable, .menu, .regular⟩ }
    let navi : AppRecord :=
      { profile := ⟨⟨3⟩, ⟨13⟩, { navigation := true, voice := true }⟩
        regular := ⟨.full, .audible, .streamable, .alert, .regular⟩ }
    let plain : AppRecord :=
      { profile := ⟨⟨4⟩, ⟨14⟩, {}⟩, regular := ⟨.limited, .notAudible, .notStreamable, .main, .regular⟩ }
    let b : Board := { apps := [media, voice, navi, plain] }
    let s : Status := ⟨.full, .audible, .notStreamable, .main, .regular⟩
    let t : Status := ⟨.limited, .attenuated, .notStreamable, .obscured, .regular⟩
    let after : Board :=
      { apps := [{ media with regular := s }, { voice with regular := t },
          { navi with regular := ⟨.background, .notAudible, .notStreamable, .alert, .regular⟩ }, plain] }
    b.apps.Distinct ∧ media ∈ b.apps ∧ voice ∈ b.apps ∧ media.app ≠ voice.app ∧
      ¬(s.level = .full ∧ t.level = .full) ∧ media.capabilities.sharesClass voice.capabilities = false ∧
      (b.tryArbitrate media.app s >>= fun b => b.tryArbitrate voice.app t) = .ok after ∧
      (b.tryArbitrate voice.app t >>= fun b => b.tryArbitrate media.app s) = .ok after := by
  intro media voice navi plain b s t after
  have distinct : b.apps.Distinct := by decide
  have hm : media ∈ b.apps := by simp [b]
  have hv : voice ∈ b.apps := by simp [b]
  have ne : media.app ≠ voice.app := by decide
  have display : ¬(s.level = .full ∧ t.level = .full) := by decide
  have apart : media.capabilities.sharesClass voice.capabilities = false := by decide
  obtain ⟨both, first, second⟩ := independent_requests_commute distinct hm hv ne display fun _ _ => apart
  have now : (b.tryArbitrate media.app s >>= fun b => b.tryArbitrate voice.app t) = .ok after := by decide
  obtain rfl : both = after := by
    rw [now] at first
    exact (Except.ok.inj first).symm
  exact ⟨distinct, hm, hv, ne, display, apart, first, second⟩

end Board

end HeadUnit
