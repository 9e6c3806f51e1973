import HeadUnit.Proofs.ConflictTable
import HeadUnit.Proofs.Loudness

/-! What a request costs the others. Arbitration only takes from them, with one exception: an audio application
    that loses the display keeps its audio focus and is audible from then on, however quiet it was in the
    foreground. -/

namespace HeadUnit

/-- How far up a level is. An unknown level counts as the highest. -/
def Level.rank : Level → Nat
  | .absent => 0
  | .background => 1
  | .limited => 2
  | .full => 3
  | .invalid => 4

/-- The status of a bystander before a request and after it. -/
structure Status.Yields (c : Capabilities) (old new : Status) : Prop where
  level : new.level.rank ≤ old.level.rank
  audio : new.audio.loudness ≤ old.audio.loudness ∨
    (c.isAudio = true ∧ old.level = .full ∧ new.level = .limited ∧ new.audio = .audible)
  video : new.video = .streamable → old.video = .streamable
  context : new.context = old.context

namespace Status
variable {asker c : Capabilities} {asked : Level} {held : Status}

/-- The table leaves a status as it is, sends it back or leaves it its audio. -/
theorem byTable_cases (asker : Capabilities) (asked : Level) (c : Capabilities) (held : Status) :
    held.byTable asker asked c = held ∨
    (held.level.isForeground = true ∧ held.byTable asker asked c = held.sentBack) ∨
    (c.isAudio = true ∧ held.level = .full ∧ held.byTable asker asked c = held.leftAudio c) := by
  by_cases foreground : held.level.isForeground = true
  · rcases Level.isForeground_iff.mp foreground with full | limited
    · cases audio : c.isAudio <;> cases shares : asker.sharesClass c <;> cases asked <;>
        simp [byTable, full, audio, shares, Level.isForeground]
    · cases shares : asker.sharesClass c <;> cases asked <;> simp [byTable, limited, shares, Level.isForeground]
  · exact Or.inl (byTable_of_hidden (Or.inr (by simpa using foreground)))

namespace Yields

theorem refl : Yields c held held := ⟨Nat.le_refl _, Or.inl (Nat.le_refl _), id, rfl⟩

theorem sentBack (h : held.level.isForeground = true) : Yields c held held.sentBack where
  level := by rcases Level.isForeground_iff.mp h with h | h <;> simp [Status.sentBack, h, Level.rank]
  audio := Or.inl (Nat.zero_le _)
  video h := by cases h
  context := rfl

theorem leftAudio (audio : c.isAudio = true) (h : held.level = .full) : Yields c held (held.leftAudio c) where
  level := by simp [Status.leftAudio, h, Level.rank]
  audio := Or.inr ⟨audio, h, rfl, rfl⟩
  video h := by
    simp only [Status.leftAudio] at h
    split at h
    · exact h
    · cases h
  context := rfl

theorem byTable : Yields c held (held.byTable asker asked c) := by
  rcases byTable_cases asker asked c held with same | ⟨foreground, back⟩ | ⟨audio, full, left⟩
  · rw [same]
    exact refl
  · rw [back]
    exact sentBack foreground
  · rw [left]
    exact leftAudio audio full

end Yields
end Status

/-- On every board with distinct numbers, also in the middle of a turn: whatever a registered application asks for,
    of any other application nothing but the regular status changes, and that one yields. -/
theorem Board.bystanders_yield {b : Board} (distinct : b.apps.Distinct) {asker : AppRecord}
    (registered : asker ∈ b.apps) (asked : Status) :
    ∃ after, b.tryArbitrate asker.app asked = .ok after ∧ ∀ r ∈ b.apps, r.app ≠ asker.app →
      ∃ s, { r with regular := s } ∈ after.apps ∧ Status.Yields r.capabilities r.regular s := by
  have known := distinct.record?_eq_some registered
  refine ⟨_, tryArbitrate_of_registered (by rw [known]; rfl) asked, fun r hr ne => ?_⟩
  have after : AppRecord.contend asker asked r ∈ (b.arbitrate asker.app asked).apps := by
    rw [arbitrate, Roster.arbitrate_eq_map distinct known]
    exact List.mem_map_of_mem hr
  rw [AppRecord.contend_eq, AppRecord.contend_regular, if_neg ne] at after
  exact ⟨_, after, Status.Yields.byTable⟩

/-- A player that asked for silence on the display, and a guide behind it. A navigation with voice takes the display
    and the focus of its classes: the guide is sent back, the player left with its audio. -/
theorem Board.bystanders_yield_player_and_guide :
    let player : Profile := ⟨⟨1⟩, ⟨11⟩, { media := true }⟩
    let guide : Profile := ⟨⟨2⟩, ⟨12⟩, { navigation := true }⟩
    let navi : Profile := ⟨⟨3⟩, ⟨13⟩, { navigation := true, voice := true }⟩
    let s := [Command.call (.register player .absent), .call (.register guide .absent), .call (.register navi .absent),
      .call (.requestAxes ⟨2⟩ .limited .attenuated .streamable .menu),
      .call (.requestAxes ⟨1⟩ .full .notAudible .notStreamable .alert)].foldl (fun s c => (s.run c).1) ({} : Session)
    let quiet : Status := ⟨.full, .notAudible, .notStreamable, .alert, .regular⟩
    let behind : Status := ⟨.limited, .attenuated, .streamable, .menu, .regular⟩
    let hidden : Status := ⟨.absent, .notAudible, .notStreamable, .main, .regular⟩
    let asked : Status := ⟨.full, .audible, .streamable, .main, .regular⟩
    let left : Status := ⟨.limited, .audible, .notStreamable, .alert, .regular⟩
    let back : Status := ⟨.background, .notAudible, .notStreamable, .menu, .regular⟩
    s.board.apps = [{ profile := player, regular := quiet, told := quiet },
      { profile := guide, regular := behind, told := behind }, { profile := navi, regular := hidden, told := hidden }] ∧
    s.board.apps.Distinct ∧
    s.board.tryArbitrate navi.app asked = .ok { s.board with apps :=
      [{ profile := player, regular := left, told := quiet }, { profile := guide, regular := back, told := behind },
        { profile := navi, regular := asked, told := hidden }] } ∧
    Status.Yields player.capabilities quiet left ∧ Status.Yields guide.capabilities behind back := by
  intro player guide navi s quiet behind hidden asked left back
  have reachable : s.Reachable := (Session.Reachable.fresh {} {}).runs _
  have distinct : s.board.apps.Distinct := reachable.board.ordered.distinct
  have apps : s.board.apps = [{ profile := player, regular := quiet, told := quiet },
      { profile := guide, regular := behind, told := behind },
      { profile := navi, regular := hidden, told := hidden }] := by
    subst s
    cbv
  have now : s.board.tryArbitrate navi.app asked = .ok { s.board with apps :=
      [{ profile := player, regular := left, told := quiet }, { profile := guide, regular := back, told := behind },
        { profile := navi, regular := asked, told := hidden }] } := by
    subst s
    cbv
  have registered : { profile := navi, regular := hidden, told := hidden } ∈ s.board.apps := by simp [apps]
  obtain ⟨after, done, others⟩ := Board.bystanders_yield distinct registered asked
  obtain rfl := Except.ok.inj (done.symm.trans now)
  obtain ⟨t, ht, playerYields⟩ :=
    others { profile := player, regular := quiet, told := quiet } (by simp [apps]) (by decide)
  obtain ⟨u, hu, guideYields⟩ :=
    others { profile := guide, regular := behind, told := behind } (by simp [apps]) (by decide)
  obtain rfl : t = left := by simpa [player, guide, navi] using ht
  obtain rfl : u = back := by simpa [player, guide, navi] using hu
  exact ⟨apps, distinct, now, playerYields, guideYields⟩

/-- So arbitration does make an application louder: a player that is silent on the display is audible once it has
    lost it to another one. -/
theorem Board.bystander_louder :
    let s := [Command.call (.register ⟨⟨1⟩, ⟨11⟩, { media := true }⟩ .absent),
      .call (.register ⟨⟨2⟩, ⟨12⟩, { navigation := true }⟩ .absent),
      .call (.requestAxes ⟨1⟩ .full .notAudible .notStreamable .main)].foldl (fun s c => (s.run c).1) ({} : Session)
    s.Reachable ∧ ∃ after,
      s.board.tryArbitrate ⟨2⟩ ⟨.full, .audible, .streamable, .main, .regular⟩ = .ok after ∧
      (s.board.apps.record? ⟨1⟩).map (·.regular) = some ⟨.full, .notAudible, .notStreamable, .main, .regular⟩ ∧
      (after.apps.record? ⟨1⟩).map (·.regular) = some ⟨.limited, .audible, .notStreamable, .main, .regular⟩ ∧
      ¬Audio.loudness .audible ≤ Audio.loudness .notAudible := by
  intro s
  refine ⟨(Session.Reachable.fresh {} {}).runs _,
    s.board.arbitrate ⟨2⟩ ⟨.full, .audible, .streamable, .main, .regular⟩, ?_, ?_, ?_, by decide⟩
  · exact Board.tryArbitrate_of_registered (by subst s; cbv) _
  · subst s
    cbv
  · subst s
    cbv

end HeadUnit
