import HeadUnit.Proofs.Effect

/-! The conflict table. What a request takes from another application depends on the level asked for, the
    level held, and whether the two share a class. The table is laid out row by row; arbitration follows it
    on every roster, and touches nothing else. -/

namespace HeadUnit

/-! ### The table -/

namespace Status

/-- Sent to the background, where there is neither sound nor video. -/
def sentBack (s : Status) : Status := ⟨.background, .notAudible, .notStreamable, s.context, .regular⟩

/-- Left with its audio, without the display. -/
def leftAudio (c : Capabilities) (s : Status) : Status :=
  ⟨.limited, .audible, if c.isVideo then s.video else .notStreamable, s.context, .regular⟩

/-- What a request for the level `asked` from an application with the capabilities `asker` leaves of the
    status that another one holds. -/
def byTable (asker : Capabilities) (asked : Level) (c : Capabilities) (held : Status) : Status :=
  match asked, held.level with
  | .full, .full => if c.isAudio && !asker.sharesClass c then held.leftAudio c else held.sentBack
  | .full, .limited => if asker.sharesClass c then held.sentBack else held
  | .limited, .full => if asker.sharesClass c && c.isAudio then held.sentBack else held
  | .limited, .limited => if asker.sharesClass c then held.sentBack else held
  | _, _ => held

end Status

/-! ### Rows -/

namespace Level
variable {asker c : Capabilities} {asked held : Level}

theorem isForeground_iff {l : Level} : l.isForeground = true ↔ l = .full ∨ l = .limited := by
  cases l <;> simp [isForeground]

theorem leftBy_of_hidden (h : asked.isForeground = false ∨ held.isForeground = false) :
    leftBy asker asked c held = held := by
  have display : ¬(asked = .full ∧ held = .full) := by
    rintro ⟨rfl, rfl⟩
    rcases h with h | h <;> cases h
  rcases h with h | h
  · simp [leftBy, h, display]
  · have limited : held ≠ .limited := by
      rintro rfl
      cases h
    simp [leftBy, h, limited, display]

theorem leftBy_limited (h : asked.isForeground = true) :
    leftBy asker asked c .limited = if asker.sharesClass c then .background else .limited := by
  simp [leftBy, h]

/-- An audio application shares a class with another audio application only. -/
theorem leftBy_full (h : asked.isForeground = true) : leftBy asker asked c .full =
    if asker.sharesClass c && c.isAudio then .background
    else if asked = .full then (if c.isAudio then .limited else .background) else .full := by
  have foreground : Level.isForeground .full = true := rfl
  cases shares : asker.sharesClass c with
  | false => simp [leftBy, shares]
  | true => simp [leftBy, shares, Capabilities.isAudio_eq_of_sharesClass shares, h, foreground]

end Level

namespace Status
variable {asker c : Capabilities} {asked held : Status} {l : Level}

theorem byTable_of_hidden (h : l.isForeground = false ∨ held.level.isForeground = false) :
    held.byTable asker l c = held := by
  unfold byTable
  split <;> simp_all [Level.isForeground]

theorem demotedTo_background : (held.demotedTo .background c).onLayer .regular = held.sentBack := rfl

theorem demotedTo_limited (audio : c.isAudio = true) :
    (held.demotedTo .limited c).onLayer .regular = held.leftAudio c := by
  simp [demotedTo, leftAudio, onLayer, audio]

/-- A demotion is as the table says, in every row. -/
theorem demotion?_eq_byTable :
    (demotion? asker asked c held).elim held (·.onLayer .regular) = held.byTable asker asked.level c := by
  have left : (demotion? asker asked c held).elim held (·.onLayer .regular) =
      if Level.leftBy asker asked.level c held.level = held.level then held
      else (held.demotedTo (Level.leftBy asker asked.level c held.level) c).onLayer .regular := by
    unfold demotion?
    dsimp only
    split <;> rfl
  rw [left]
  by_cases hidden : asked.level.isForeground = false ∨ held.level.isForeground = false
  · rw [byTable_of_hidden hidden, Level.leftBy_of_hidden hidden, if_pos rfl]
  obtain ⟨fa, fh⟩ : asked.level.isForeground = true ∧ held.level.isForeground = true := by simpa using hidden
  rcases Level.isForeground_iff.mp fh with full | limited
  · rw [full, Level.leftBy_full fa]
    cases shares : asker.sharesClass c <;> cases audio : c.isAudio <;>
      rcases Level.isForeground_iff.mp fa with ha | ha <;>
        simp [byTable, ha, full, shares, audio, demotedTo_background, demotedTo_limited]
  · rw [limited, Level.leftBy_limited fa]
    cases shares : asker.sharesClass c <;> rcases Level.isForeground_iff.mp fa with ha | ha <;>
      simp [byTable, ha, limited, shares, demotedTo_background]

end Status

/-! ### Arbitration -/

/-- One record after a request: the asker has what it asked for, any other what the table leaves to it. -/
theorem AppRecord.contend_regular (asker : AppRecord) (asked : Status) (r : AppRecord) :
    (contend asker asked r).regular = if r.app = asker.app then asked.onLayer .regular
      else r.regular.byTable asker.capabilities asked.level r.capabilities := by
  split
  · next h => rw [contend_of_eq h]; rfl
  · next h =>
    rw [contend_of_ne h, ← Status.demotion?_eq_byTable]
    cases Status.demotion? asker.capabilities asked r.capabilities r.regular <;> rfl

/-- On every board with distinct numbers, whatever the regular statuses and the overlays on it, arbitration for
    a registered application succeeds. It gives this application what it asks for and everyone else what the
    conflict table leaves; nothing but regular statuses changes. -/
theorem Board.tryArbitrate_by_table {b : Board} (distinct : b.apps.Distinct) {asker : AppRecord}
    (registered : asker ∈ b.apps) (asked : Status) :
    b.tryArbitrate asker.app asked = .ok { b with apps := b.apps.map fun r =>
      { r with regular := if r.app = asker.app then asked.onLayer .regular
                 else r.regular.byTable asker.capabilities asked.level r.capabilities } } := by
  have known := distinct.record?_eq_some registered
  have each : b.apps.arbitrate asker.app asked = b.apps.map fun r =>
      { r with regular := if r.app = asker.app then asked.onLayer .regular
                 else r.regular.byTable asker.capabilities asked.level r.capabilities } := by
    rw [Roster.arbitrate_eq_map distinct known]
    refine List.map_congr_left fun r _ => ?_
    rw [AppRecord.contend_eq, AppRecord.contend_regular]
  rw [tryArbitrate_of_registered (by rw [known]; rfl), arbitrate, each]

/-- Media with voice asks for the display. Navigation loses it and keeps its audio, a plain application loses it
    altogether; of those at `LIMITED` only the one with media has to go, and what is unknown stays unknown. -/
theorem Board.tryArbitrate_by_table_display :
    let player : AppRecord := { profile := ⟨⟨4⟩, ⟨14⟩, { media := true, voice := true }⟩ }
    let navi : AppRecord :=
      { profile := ⟨⟨1⟩, ⟨11⟩, { navigation := true }⟩
        regular := ⟨.full, .attenuated, .streamable, .menu, .regular⟩
        overlays := [.phoneCall, .naviStreaming]
        postponed? := some ⟨.background, .notAudible, .notStreamable, .main, .regular⟩ }
    let plain : AppRecord :=
      { profile := ⟨⟨2⟩, ⟨12⟩, {}⟩, regular := ⟨.full, .notAudible, .streamable, .alert, .regular⟩ }
    let radio : AppRecord :=
      { profile := ⟨⟨3⟩, ⟨13⟩, { media := true, navigation := true }⟩
        regular := ⟨.limited, .audible, .streamable, .main, .regular⟩, resuming := true }
    let guide : AppRecord :=
      { profile := ⟨⟨5⟩, ⟨15⟩, { navigation := true }⟩
        regular := ⟨.limited, .audible, .streamable, .main, .regular⟩ }
    let odd : AppRecord :=
      { profile := ⟨⟨6⟩, ⟨16⟩, { media := true }⟩
        regular := ⟨.invalid, .invalid, .invalid, .invalid, .current⟩ }
    let b : Board := { apps := [navi, plain, radio, player, guide, odd], overlays := [.phoneCall] }
    let asked : Status := ⟨.full, .audible, .notStreamable, .main, .current⟩
    b.apps.Distinct ∧ player ∈ b.apps ∧ b.tryArbitrate player.app asked =
      .ok { b with apps :=
        [{ navi with regular := ⟨.limited, .audible, .streamable, .menu, .regular⟩ },
         { plain with regular := ⟨.background, .notAudible, .notStreamable, .alert, .regular⟩ },
         { radio with regular := ⟨.background, .notAudible, .notStreamable, .main, .regular⟩ },
         { player with regular := ⟨.full, .audible, .notStreamable, .main, .regular⟩ }, guide, odd] } := by
  intro player navi plain radio guide odd b asked
  have distinct : b.apps.Distinct := by decide
  have registered : player ∈ b.apps := by simp [b]
  exact ⟨distinct, registered, (tryArbitrate_by_table distinct registered asked).trans (by decide)⟩

end HeadUnit
