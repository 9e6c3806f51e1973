import HeadUnit.Proofs.Anchored
import HeadUnit.Proofs.Postponed

/-! What the answer to an activation request brings about. The status that waited goes to the first registered
    application with the noted number at the HMI, and any other stays as it is or gives way to it. If no
    application shares its number with another, that is the application which asked. If it does, the status
    can go to one that never asked for it. -/

namespace HeadUnit

/-- What a request takes from another application is not given what was asked for. -/
theorem Level.leftBy_ne_asked {asker c : Capabilities} {asked held : Level}
    (changed : leftBy asker asked c held ≠ held) : leftBy asker asked c held ≠ asked := by
  unfold leftBy at changed ⊢
  split
  · next gives =>
    rintro rfl
    simp [isForeground] at gives
  · next keeps =>
    rw [if_neg keeps] at changed
    by_cases display : asked = .full ∧ held = .full
    · simp only [display, decide_true, Bool.and_self, if_true]
      split <;> simp
    · simp [display] at changed

theorem Status.demotion?_ne_asked {asker c : Capabilities} {asked held left : Status}
    (h : demotion? asker asked c held = some left) : left.onLayer .regular ≠ asked.onLayer .regular := by
  simp only [demotion?] at h
  split at h
  · cases h
  · next changed =>
    cases h
    intro same
    have level : (held.demotedTo (Level.leftBy asker asked.level c held.level) c).level =
        Level.leftBy asker asked.level c held.level := by
      unfold demotedTo
      split <;> rfl
    have asks := congrArg (·.level) same
    simp only [onLayer, level] at asks
    exact Level.leftBy_ne_asked changed asks

theorem Roster.Ordered.first_ofHmiApp? {apps : Roster} (h : apps.Ordered) {hmiApp : HmiAppId} {app : AppId}
    (owner : apps.ofHmiApp? hmiApp = some app) : ∃ r ∈ apps, r.app = app ∧ r.profile.hmiApp = hmiApp ∧
      ∀ s ∈ apps, s.profile.hmiApp = hmiApp → r.app.number ≤ s.app.number := by
  obtain ⟨r, found, rfl⟩ := Option.map_eq_some_iff.mp owner
  obtain ⟨has, before, after, rfl, none⟩ := List.find?_eq_some_iff_append.mp found
  refine ⟨r, by simp, rfl, by simpa using has, fun s hs same => ?_⟩
  rcases List.mem_append.mp hs with hs | hs
  · have other : s.profile.hmiApp ≠ hmiApp := by simpa using none s hs
    exact absurd same other
  · rcases List.mem_cons.mp hs with rfl | hs
    · exact UInt32.le_refl _
    · have later := (List.pairwise_cons.mp (List.pairwise_append.mp h).2.1).1 s hs
      exact UInt32.le_iff_toNat_le.mpr later.le

namespace Session
variable {s t : Session}

/-- A successful answer that is applied gives the status that waited under its number to one registered
    application, the first of those with the noted number at the HMI: the one that asked, if no other shares
    this number. Any other application keeps its regular status or is demoted for it, and is not given what was
    asked for. -/
theorem Reachable.answer_promotes (h : s.Reachable) {id : CorrelationId} {a : Activation} {n : Nat}
    (waits : s.board.pending.find? id = some a)
    (applied : (s.turn (.event (.activationAnswered id .success))).reply = .applied n)
    (after : After (.event (.activationAnswered id .success)) s t) :
    ∃ owner ∈ s.board.apps,
      (owner.profile.hmiApp = a.hmiApp ∧
        (∀ r ∈ s.board.apps, r.profile.hmiApp = a.hmiApp → owner.app.number ≤ r.app.number) ∧
        ((∀ r ∈ s.board.apps, r.profile.hmiApp = a.hmiApp → r.app = a.app) → owner.app = a.app)) ∧
      (t.view owner.app).regular? = some (a.target.onLayer .regular) ∧
      ∀ r ∈ s.board.apps, r.app ≠ owner.app →
        (t.view r.app).regular? = some r.regular ∨
          ∃ left, Status.demotion? owner.capabilities a.target r.capabilities r.regular = some left ∧
            (t.view r.app).regular? = some (left.onLayer .regular) ∧
            left.onLayer .regular ≠ a.target.onLayer .regular := by
  have ordered := h.board.ordered
  rcases h.board.anchored.answer_cases s.conditions id .success with
    ⟨f, -, turn⟩ | ⟨a', app, resolved, first, turn⟩
  · cases (congrArg Turn.reply turn).symm.trans applied
  obtain rfl : a' = a := Option.some.inj ((Pending.resolution_eq_ok_iff.mp resolved).1.symm.trans waits)
  obtain ⟨owner, mem, rfl, hmiApp, least⟩ := ordered.first_ofHmiApp? first
  have known := ordered.record?_eq_some_iff.mpr ⟨mem, rfl⟩
  -- Each record is seen to have given way on its own.
  have seen : ∀ r ∈ s.board.apps,
      (t.view r.app).regular? = some (AppRecord.contend owner a'.target r).regular := by
    intro r hr
    have apps : t.board.apps = ((s.board.apps.map (AppRecord.contend owner a'.target)).map
        (·.informed s.conditions.policy.attenuates)) := by
      rw [after.apps, ← Roster.arbitrate_eq_map ordered.distinct known]
      exact congrArg (·.board.apps) turn
    rw [view_regular?, apps, Roster.record?_map (AppRecord.informed_app _),
      Roster.record?_map fun _ => AppRecord.contend_app, ordered.record?_eq_some_iff.mpr ⟨hr, rfl⟩]
    exact congrArg some (AppRecord.informed_regular _ _)
  refine ⟨owner, mem, ⟨hmiApp, least, fun alone => alone owner mem hmiApp⟩, ?_, fun r hr other => ?_⟩
  · rw [seen owner mem, AppRecord.contend_of_eq rfl]
    rfl
  · rw [seen r hr, AppRecord.contend_of_ne other]
    cases demoted : Status.demotion? owner.capabilities a'.target r.capabilities r.regular with
    | none => exact Or.inl rfl
    | some left => exact Or.inr ⟨left, rfl, rfl, Status.demotion?_ne_asked demoted⟩

/-- With different numbers at the HMI, the second of two applications takes the display from the first. -/
theorem Reachable.answer_promotes_second :
    let s := [Command.call (.register ⟨⟨1⟩, ⟨50⟩, { media := true }⟩ .full),
      .call (.register ⟨⟨2⟩, ⟨51⟩, { navigation := true }⟩ .absent), .call (.requestLevel ⟨2⟩ .full)].foldl
      (fun s c => (s.run c).1) ({} : Session)
    let t := (s.run (.call (.event (.activationAnswered ⟨1⟩ .success)))).1
    ∃ a, s.board.pending.find? ⟨1⟩ = some a ∧ a.app = ⟨2⟩ ∧
      (t.view ⟨2⟩).regular? = some ⟨.full, .audible, .streamable, .main, .regular⟩ := by
  intro s t
  have reachable : s.Reachable := (Session.Reachable.fresh {} {}).runs _
  let a : Activation := ⟨⟨2⟩, ⟨51⟩, ⟨.full, .audible, .streamable, .main, .regular⟩, 0⟩
  have waits : s.board.pending.find? ⟨1⟩ = some a := by cbv
  have fresh : a.isExpired s.host.now s.settings.timeout = false := by
    rw [show s.host.now = 0 by cbv, show s.settings.timeout = some 10 by cbv]
    rfl
  have applied : (s.turn (.event (.activationAnswered ⟨1⟩ .success))).reply = .applied 2 := by
    rw [turn_of_success waits fresh (show s.board.apps.ofHmiApp? a.hmiApp = some ⟨2⟩ by cbv)]
    cbv
  have plain : Reacts Command.IsAside s.host.reactions := .of_eq_nil (by cbv)
  have profiles : s.board.apps.map (·.profile) =
      [⟨⟨1⟩, ⟨50⟩, { media := true }⟩, ⟨⟨2⟩, ⟨51⟩, { navigation := true }⟩] := by cbv
  obtain ⟨owner, -, ⟨-, -, asked⟩, promoted, -⟩ := reachable.answer_promotes waits applied (.delivered plain)
  have own : owner.app = ⟨2⟩ := asked fun r hr same => by
    have listed := List.mem_map_of_mem (f := (·.profile)) hr
    rw [profiles] at listed
    change r.profile.hmiApp = ⟨51⟩ at same
    change r.profile.app = ⟨2⟩
    rcases List.mem_cons.mp listed with e | listed
    · rw [e] at same
      cases same
    · rw [List.mem_singleton.mp listed]
  rw [own] at promoted
  exact ⟨a, waits, rfl, promoted⟩

/-- Two applications have one number at the HMI. The second asks for the display, and when the HMI consents it
    is the first that gets it. -/
theorem answer_promotes_other :
    let s := [Command.call (.register ⟨⟨1⟩, ⟨50⟩, {}⟩ .absent), .call (.register ⟨⟨2⟩, ⟨50⟩, {}⟩ .absent),
      .call (.requestLevel ⟨2⟩ .full)].foldl (fun s c => (s.run c).1) ({} : Session)
    let answered := s.run (.call (.event (.activationAnswered ⟨1⟩ .success)))
    let target : Status := ⟨.full, .notAudible, .notStreamable, .main, .regular⟩
    (s.board.pending.find? ⟨1⟩).map (fun a => (a.app, a.target)) = some (⟨2⟩, target) ∧
      answered.2 = .reply (.applied 1) ∧
      (answered.1.view ⟨1⟩).regular? = some target ∧ (s.view ⟨1⟩).regular? = some .initial ∧
      (answered.1.view ⟨2⟩).regular? = some .initial := by
  intro s answered target
  let a : Activation := ⟨⟨2⟩, ⟨50⟩, target, 0⟩
  have waits : s.board.pending.find? ⟨1⟩ = some a := by cbv
  have fresh : a.isExpired s.host.now s.settings.timeout = false := by
    rw [show s.host.now = 0 by cbv, show s.settings.timeout = some 10 by cbv]
    rfl
  have turn := turn_of_success waits fresh (show s.board.apps.ofHmiApp? a.hmiApp = some ⟨1⟩ by cbv)
  have plain : Reacts Command.IsAside s.host.reactions := .of_eq_nil (by cbv)
  have apps := (After.delivered plain).apps.trans (congrArg (·.board.apps) turn)
  refine ⟨?_, ?_, ?_, by cbv, ?_⟩
  · rw [waits]
    rfl
  · rw [run_call_reply, turn]
    cbv
  · rw [view_regular?, apps]
    cbv
  · rw [view_regular?, apps]
    cbv

end Session

end HeadUnit
