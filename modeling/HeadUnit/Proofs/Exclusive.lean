import HeadUnit.Proofs.Steps
import HeadUnit.Proofs.Validity

/-! Exclusive use of the display and of audio focus. Whatever the calls and their order, one application
    at most is at `FULL`, and of two applications that share a class one at most is in the foreground, if
    they have audio, and one at most at `LIMITED` in any case. The invariant speaks of the regular levels;
    overlays never lift an application into the foreground, so it carries over to what is presented. -/

namespace HeadUnit

/-! ### Two records -/

/-- Two applications hold their regular levels side by side. -/
structure AppRecord.Apart (r s : AppRecord) : Prop where
  display : ¬(r.regular.level = .full ∧ s.regular.level = .full)
  audio : r.capabilities.sharesClass s.capabilities = true → r.capabilities.isAudio = true →
    ¬(r.regular.level.isForeground = true ∧ s.regular.level.isForeground = true)
  limited : r.capabilities.sharesClass s.capabilities = true →
    ¬(r.regular.level = .limited ∧ s.regular.level = .limited)

namespace AppRecord.Apart
variable {r s asker : AppRecord} {asked : Status}

theorem symm (h : r.Apart s) : s.Apart r where
  display := fun ⟨hs, hr⟩ => h.display ⟨hr, hs⟩
  audio shares audio := fun ⟨hs, hr⟩ => by
    rw [Capabilities.sharesClass_comm] at shares
    exact h.audio shares (Capabilities.isAudio_eq_of_sharesClass shares ▸ audio) ⟨hr, hs⟩
  limited shares := fun ⟨hs, hr⟩ => by
    rw [Capabilities.sharesClass_comm] at shares
    exact h.limited shares ⟨hr, hs⟩

/-- An application without presence is in nobody's way. -/
theorem of_absent (h : r.regular.level = .absent) : r.Apart s where
  display := fun ⟨hr, _⟩ => by
    rw [h] at hr
    cases hr
  audio _ _ := fun ⟨hr, _⟩ => by
    rw [h] at hr
    cases hr
  limited _ := fun ⟨hr, _⟩ => by
    rw [h] at hr
    cases hr

theorem congr {r' s' : AppRecord} (h : r.Apart s) (hr : r'.profile = r.profile) (hs : s'.profile = s.profile)
    (er : r'.regular = r.regular) (es : s'.regular = s.regular) : r'.Apart s' := by
  have cr : r'.capabilities = r.capabilities := congrArg Profile.capabilities hr
  have cs : s'.capabilities = s.capabilities := congrArg Profile.capabilities hs
  refine ⟨?_, ?_, ?_⟩
  · rw [er, es]
    exact h.display
  · rw [er, es, cr, cs]
    exact h.audio
  · rw [er, es, cr, cs]
    exact h.limited

/-- The asker stands apart from every application that had to give way, whatever both held before. -/
theorem asker_contend (ne : s.app ≠ asker.app) :
    (AppRecord.contend asker asked asker).Apart (AppRecord.contend asker asked s) := by
  have hasker : (AppRecord.contend asker asked asker).regular.level = asked.level := by
    rw [contend_of_eq rfl]
    rfl
  refine ⟨?_, ?_, ?_⟩ <;> rw [hasker, contend_level_of_ne ne]
  · rintro ⟨full, hs⟩
    rw [full] at hs
    exact Level.leftBy_full_ne_full hs
  · rw [contend_capabilities, contend_capabilities]
    rintro shares audio ⟨foreground, hs⟩
    rw [Level.leftBy_of_audio shares audio foreground] at hs
    cases hs
  · rw [contend_capabilities, contend_capabilities]
    rintro shares ⟨limited, hs⟩
    rw [limited] at hs
    exact Level.leftBy_limited_ne_limited shares hs

/-- Two applications that both have to give way stay apart: a level that is left was held before, or
    audio comes down to `LIMITED` from the display, which only one of the two can have held. -/
theorem contend (h : r.Apart s) (hr : r.app ≠ asker.app) (hs : s.app ≠ asker.app) :
    (AppRecord.contend asker asked r).Apart (AppRecord.contend asker asked s) := by
  refine ⟨?_, ?_, ?_⟩ <;> rw [contend_level_of_ne hr, contend_level_of_ne hs]
  · rintro ⟨lr, ls⟩
    exact h.display ⟨Level.full_of_leftBy lr, Level.full_of_leftBy ls⟩
  · rw [contend_capabilities, contend_capabilities]
    rintro shares audio ⟨lr, ls⟩
    exact h.audio shares audio ⟨Level.isForeground_of_leftBy lr, Level.isForeground_of_leftBy ls⟩
  · rw [contend_capabilities, contend_capabilities]
    rintro shares ⟨lr, ls⟩
    have foreground : ∀ {c : Capabilities} {l : Level}, l = .limited ∨ (l = .full ∧ c.isAudio = true) →
        l.isForeground = true := by
      rintro c l (rfl | ⟨rfl, -⟩) <;> rfl
    have fr := foreground (Level.limited_of_leftBy lr)
    have fs := foreground (Level.limited_of_leftBy ls)
    have both := Capabilities.isAudio_eq_of_sharesClass shares
    rcases Level.limited_of_leftBy lr with held | ⟨-, audio⟩
    · rcases Level.limited_of_leftBy ls with held' | ⟨-, audio⟩
      · exact h.limited shares ⟨held, held'⟩
      · exact h.audio shares (both.trans audio) ⟨fr, fs⟩
    · exact h.audio shares audio ⟨fr, fs⟩

end AppRecord.Apart

/-! ### The roster -/

/-- Any two applications are apart. -/
def Roster.Exclusive (apps : Roster) : Prop := ∀ r ∈ apps, ∀ s ∈ apps, r.app ≠ s.app → r.Apart s

namespace Roster.Exclusive
variable {apps : Roster}

/-- A change that leaves profiles and regular statuses alone. -/
theorem map (h : apps.Exclusive) {f : AppRecord → AppRecord} (profile : ∀ r, (f r).profile = r.profile)
    (regular : ∀ r, (f r).regular = r.regular) : Exclusive (apps.map f) := by
  intro r hr s hs ne
  obtain ⟨r₀, hr₀, rfl⟩ := List.mem_map.mp hr
  obtain ⟨s₀, hs₀, rfl⟩ := List.mem_map.mp hs
  have ne₀ : r₀.app ≠ s₀.app := fun e => ne (by
    rw [AppRecord.app, AppRecord.app, profile, profile]
    exact e)
  exact (h r₀ hr₀ s₀ hs₀ ne₀).congr (profile r₀) (profile s₀) (regular r₀) (regular s₀)

theorem modify (h : apps.Exclusive) {app : AppId} {f : AppRecord → AppRecord}
    (profile : ∀ r, (f r).profile = r.profile) (regular : ∀ r, (f r).regular = r.regular) :
    (apps.modify app f).Exclusive :=
  h.map (modify_keeps app profile) (modify_keeps app regular)

theorem arbitrate (h : apps.Exclusive) (ordered : apps.Ordered) (target : AppId) (asked : Status) :
    (apps.arbitrate target asked).Exclusive := by
  refine ordered.arbitrate_induct h (fun asker hasker => ?_) target
  intro r hr s hs ne
  obtain ⟨r₀, hr₀, rfl⟩ := List.mem_map.mp hr
  obtain ⟨s₀, hs₀, rfl⟩ := List.mem_map.mp hs
  rw [AppRecord.contend_app, AppRecord.contend_app] at ne
  by_cases er : r₀.app = asker.app
  · obtain rfl := ordered.distinct.eq hr₀ hasker er
    exact .asker_contend ne.symm
  · by_cases es : s₀.app = asker.app
    · obtain rfl := ordered.distinct.eq hs₀ hasker es
      exact (AppRecord.Apart.asker_contend er).symm
    · exact (h r₀ hr₀ s₀ hs₀ ne).contend er es

theorem insert (h : apps.Exclusive) {r : AppRecord} (absent : r.regular.level = .absent) :
    (apps.insert r).Exclusive := by
  intro s hs t ht ne
  rcases mem_insert.mp hs with rfl | hs
  · exact .of_absent absent
  · rcases mem_insert.mp ht with rfl | ht
    · exact (AppRecord.Apart.of_absent absent).symm
    · exact h s hs t ht ne

end Roster.Exclusive

/-! ### Boards -/

namespace Board
variable {b : Board}

theorem exclusive_settle (h : b.apps.Exclusive) (a : Bool) : (b.settle a).board.apps.Exclusive := by
  refine h.map (fun r => ?_) (fun r => ?_) <;>
  · unfold AppRecord.informed
    split <;> rfl

theorem exclusive_promote (h : b.apps.Exclusive) (ordered : b.apps.Ordered) : b.promote.apps.Exclusive :=
  promote_induct_ordered (P := fun b => b.apps.Exclusive) ordered (fun _ => h)
    (h.map (fun _ => rfl) fun _ => rfl) fun ordered' h' _ _ => h'.arbitrate ordered' _ _

theorem Effect.exclusive {c : Conditions} {p : Option Profile} {t : Turn} (h : b.apps.Exclusive)
    (ordered : b.apps.Ordered) (e : Effect c b p t) : t.board.apps.Exclusive := by
  cases e with
  | refused f => exact h
  | silent => exact h
  | registered p l fresh valid =>
    have enrolled : (b.enrol p).apps.Exclusive := h.insert (by
      rw [AppRecord.foldl_lay_eq]
      rfl)
    exact exclusive_settle (enrolled.arbitrate (ordered_enrol ordered fresh) _ _) _
  | unregistered known =>
    exact fun r hr s hs => h r (List.mem_filter.mp hr).1 s (List.mem_filter.mp hs).1
  | resuming known on => exact h.modify (fun _ => rfl) fun _ => rfl
  | postponed known valid blocked waits => exact h.modify (fun _ => rfl) fun _ => rfl
  | requested known valid free =>
    rw [requestNow_board known]
    exact exclusive_settle (h.arbitrate ordered _ _) _
  | awaited known valid free id => exact h
  | unanswered id f => exact h
  | answered found owner => exact exclusive_settle (Roster.Exclusive.arbitrate h ordered _ _) _
  | started isGlobal =>
    exact exclusive_settle (Roster.Exclusive.map h (AppRecord.lay_profile _) (AppRecord.lay_regular _)) _
  | stopped isGlobal =>
    refine exclusive_settle (exclusive_promote ?_ (ordered_uncover ordered _)) _
    exact h.map (fun _ => rfl) fun _ => rfl
  | streaming known =>
    exact exclusive_settle (Roster.Exclusive.modify h (AppRecord.lay_profile _) (AppRecord.lay_regular _)) _
  | streamed known =>
    refine exclusive_settle (exclusive_promote ?_ (ordered_modify ordered (AppRecord.lift_app _))) _
    exact h.modify (fun _ => rfl) fun _ => rfl

theorem Reachable.exclusive (h : Reachable b) : b.apps.Exclusive :=
  h.induct (P := fun b => b.apps.Exclusive) (fun _ hr => (by cases hr))
    (fun hb ih e => e.exclusive ih hb.ordered) fun _ ih => ih

end Board

/-! ### Sessions -/

namespace Session.Reachable
variable {s : Session}

/-- One application at most is at `FULL`, by its regular status and by what is presented. -/
theorem full_unique (h : s.Reachable) :
    (∀ r ∈ s.board.apps, ∀ t ∈ s.board.apps, r.regular.level = .full → t.regular.level = .full → r = t) ∧
      ∀ attenuates, ∀ r ∈ s.board.apps, ∀ t ∈ s.board.apps,
        (r.effective attenuates).level = .full → (t.effective attenuates).level = .full → r = t := by
  have regular : ∀ r ∈ s.board.apps, ∀ t ∈ s.board.apps,
      r.regular.level = .full → t.regular.level = .full → r = t := by
    intro r hr t ht fr ft
    by_contra ne
    have apart := h.board.exclusive r hr t ht fun e => ne (h.board.ordered.distinct.eq hr ht e)
    exact apart.display ⟨fr, ft⟩
  refine ⟨regular, fun attenuates r hr t ht fr ft => ?_⟩
  exact regular r hr t ht (Overlay.full_of_coverAll fr) (Overlay.full_of_coverAll ft)

theorem full_unique_second_comer :
    let s := [Command.call (.register ⟨⟨1⟩, ⟨11⟩, { media := true }⟩ .full),
      .call (.register ⟨⟨2⟩, ⟨12⟩, { navigation := true }⟩ .full)].foldl (fun s c => (s.run c).1) ({} : Session)
    s.board.apps.map (fun r => (r.app, r.regular.level)) = [(⟨1⟩, .limited), (⟨2⟩, .full)] ∧
      ∀ r ∈ s.board.apps, ∀ t ∈ s.board.apps, r.regular.level = .full → t.regular.level = .full → r = t :=
  ⟨by cbv, (full_unique ((Session.Reachable.fresh {} {}).runs _)).1⟩

/-- Of two applications that share a class, one at most is in the foreground if they have audio, by its
    regular status and by what is presented; in any case one at most is at `LIMITED`. -/
theorem focus_exclusive (h : s.Reachable) {r t : AppRecord} (hr : r ∈ s.board.apps) (ht : t ∈ s.board.apps)
    (ne : r.app ≠ t.app) (shares : r.capabilities.sharesClass t.capabilities = true) :
    (r.capabilities.isAudio = true → t.capabilities.isAudio = true →
      ¬(r.regular.level.isForeground = true ∧ t.regular.level.isForeground = true) ∧
        ∀ attenuates, ¬((r.effective attenuates).level.isForeground = true ∧
          (t.effective attenuates).level.isForeground = true)) ∧
      ¬(r.regular.level = .limited ∧ t.regular.level = .limited) := by
  have apart := h.board.exclusive r hr t ht ne
  have known : ∀ q ∈ s.board.apps, q.regular.level ≠ .invalid := fun q hq =>
    (Status.isValid_iff.mp (h.board.valid.apps q hq).regular.1).1
  refine ⟨fun audio _ => ⟨apart.audio shares audio, fun attenuates ⟨fr, ft⟩ => ?_⟩, apart.limited shares⟩
  exact apart.audio shares audio ⟨Overlay.isForeground_of_coverAll (known r hr) fr,
    Overlay.isForeground_of_coverAll (known t ht) ft⟩

theorem focus_exclusive_two_classes :
    let s := [Command.call (.register ⟨⟨1⟩, ⟨11⟩, { media := true }⟩ .full),
      .call (.register ⟨⟨2⟩, ⟨12⟩, { media := true, navigation := true }⟩ .limited)].foldl
      (fun s c => (s.run c).1) ({} : Session)
    let radio : AppRecord :=
      { profile := ⟨⟨1⟩, ⟨11⟩, { media := true }⟩
        regular := ⟨.background, .notAudible, .notStreamable, .main, .regular⟩
        told := ⟨.background, .notAudible, .notStreamable, .main, .regular⟩ }
    let navi : AppRecord :=
      { profile := ⟨⟨2⟩, ⟨12⟩, { media := true, navigation := true }⟩
        regular := ⟨.limited, .audible, .streamable, .main, .regular⟩
        told := ⟨.limited, .audible, .streamable, .main, .regular⟩ }
    s.board.apps = [radio, navi] ∧ radio.capabilities.sharesClass navi.capabilities = true ∧
      (radio.capabilities.isAudio = true → navi.capabilities.isAudio = true →
        ¬(radio.regular.level.isForeground = true ∧ navi.regular.level.isForeground = true) ∧
          ∀ attenuates, ¬((radio.effective attenuates).level.isForeground = true ∧
            (navi.effective attenuates).level.isForeground = true)) ∧
        ¬(radio.regular.level = .limited ∧ navi.regular.level = .limited) := by
  intro s radio navi
  have apps : s.board.apps = [radio, navi] := by cbv
  refine ⟨apps, by decide, focus_exclusive (s := s) ((Session.Reachable.fresh {} {}).runs _) ?_ ?_ ?_ ?_⟩
  · rw [apps]
    exact List.mem_cons_self
  · rw [apps]
    exact List.mem_cons_of_mem _ List.mem_cons_self
  · decide
  · decide

end Session.Reachable

end HeadUnit
