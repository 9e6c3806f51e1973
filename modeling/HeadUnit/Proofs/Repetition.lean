import HeadUnit.Proofs.Anchored
import HeadUnit.Proofs.Layers
import HeadUnit.Proofs.Postponed
import HeadUnit.Proofs.Told
import HeadUnit.Proofs.Unapplied

/-! To repeat a call does nothing. Whatever a call brings about is brought about already when it comes again:
    whoever gave way has nothing left to give, an overlay that is on stays where it lies, the slot is filled with
    what fills it, and nothing waits that could be carried out. So the turn settles a board on which everybody
    knows what is presented. -/

namespace HeadUnit

/-- The turn leaves the board as it is, and tells no application of a change. -/
structure Turn.Stays (b : Board) (t : Turn) : Prop where
  board : t.board = b
  noNews : ∀ n ∈ t.notices, n.isNews = false

theorem Overlay.filter_ne_of_notMem {k : Overlay} {ks : List Overlay} (off : k ∉ ks) : ks.filter (· ≠ k) = ks :=
  List.filter_eq_self.mpr fun k' hk' => by simpa using ne_of_mem_of_not_mem hk' off

namespace AppRecord
variable {r : AppRecord} {k : Overlay}

theorem clearPostponed_of_idle (idle : r.postponed? = none) : r.clearPostponed = r := by
  obtain ⟨_, _, _, _, _, _⟩ := r
  obtain rfl : _ = none := idle
  rfl

theorem lay_of_mem (on : k ∈ r.overlays) : r.lay k = r := if_pos (by simpa [isUnder] using on)

theorem lift_of_notMem (off : k ∉ r.overlays) : r.lift k = r := by
  rw [lift, Overlay.filter_ne_of_notMem off]

end AppRecord

namespace Roster
variable {apps later : Roster}

/-- Whoever is there later was there before, under the same overlays. -/
def KeepsStacks (apps later : Roster) : Prop :=
  ∀ s ∈ later, ∃ r ∈ apps, r.profile = s.profile ∧ r.overlays = s.overlays

theorem KeepsStacks.map (h : apps.KeepsStacks later) {f : AppRecord → AppRecord}
    (profile : ∀ r, (f r).profile = r.profile) (overlays : ∀ r, (f r).overlays = r.overlays) :
    apps.KeepsStacks (later.map f) := by
  intro s hs
  obtain ⟨s₀, hs₀, rfl⟩ := List.mem_map.mp hs
  obtain ⟨r, hr, same, under⟩ := h s₀ hs₀
  exact ⟨r, hr, same.trans (profile s₀).symm, under.trans (overlays s₀).symm⟩

end Roster

namespace Board
variable {b : Board} {c c' : Conditions} {a : Bool} {app : AppId} {asked : Status} {r : AppRecord} {k : Overlay}

/-! ### Boards on which there is nothing to do -/

theorem map_apps_of_fixed {f : AppRecord → AppRecord} (fixed : ∀ r ∈ b.apps, f r = r) :
    { b with apps := b.apps.map f } = b := by
  rw [List.map_congr_left fixed, List.map_id']

theorem modify_of_fixed {f : AppRecord → AppRecord} (fixed : ∀ r ∈ b.apps, r.app = app → f r = r) :
    b.modify app f = b :=
  map_apps_of_fixed fun r hr => by
    split
    · next own => exact fixed r hr own
    · rfl

theorem modify_again {f : AppRecord → AppRecord} (keeps : ∀ r, (f r).app = r.app) (again : ∀ r, f (f r) = f r) :
    (b.modify app f).modify app f = b.modify app f :=
  modify_of_fixed fun s hs own => by
    obtain ⟨s₀, -, rfl⟩ := List.mem_map.mp hs
    rw [Roster.modify_keeps app keeps] at own
    rw [if_pos own]
    exact again s₀

theorem promote_of_prompt (prompt : b.Prompt) : b.promote = b := by
  unfold promote
  split
  · rfl
  · next free =>
    have idle := prompt (by simpa using free)
    have ready : (b.apps.filterMap fun r => r.postponed?.map fun s => (r.app, s)) = [] :=
      List.filterMap_eq_nil_iff.mpr fun r hr => by rw [idle r hr]; rfl
    rw [ready]
    exact map_apps_of_fixed fun r hr => AppRecord.clearPostponed_of_idle (idle r hr)

theorem settle_of_aware (aware : b.apps.Aware a) : b.settle a = b.keepSilent := by
  have owed : ∀ r ∈ b.apps, ¬r.hasNews a = true := fun r hr news => by
    rw [AppRecord.hasNews_iff, aware r hr] at news
    cases news
  have board : { b with apps := b.apps.map (·.informed a) } = b := map_apps_of_fixed fun r hr => if_neg (owed r hr)
  have notices : b.apps.flatMap (·.news a) = [] :=
    List.flatMap_eq_nil_iff.mpr fun r hr => AppRecord.news_of_not_hasNews (owed r hr)
  have told : b.apps.countP (·.hasNews a) = 0 := List.countP_eq_zero.mpr owed
  rw [settle, board, notices, told]
  rfl

theorem stays_drop (f : Fault) (b : Board) : (b.drop f).Stays b := ⟨rfl, fun _ hn => by cases hn⟩

theorem stays_keepSilent (b : Board) : b.keepSilent.Stays b := ⟨rfl, fun _ hn => by cases hn⟩

/-- A change of the board that a settled board does not undergo. -/
theorem stays_settle {X : Board → Board} (fixed : X (b.settle a).board = (b.settle a).board) :
    ((X (b.settle a).board).settle a).Stays (b.settle a).board := by
  rw [fixed, settle_of_aware (aware_settle a b)]
  exact stays_keepSilent _

/-! ### Steps taken again -/

theorem keepsStacks_promote (ordered : b.apps.Ordered) : b.apps.KeepsStacks b.promote.apps := by
  have start : b.apps.KeepsStacks b.apps := fun s hs => ⟨s, hs, rfl, rfl⟩
  refine promote_induct_ordered (P := fun b' => b.apps.KeepsStacks b'.apps) ordered (fun _ => start)
    (start.map (fun _ => rfl) fun _ => rfl) fun ordered' h _ _ => ?_
  exact ordered'.arbitrate_induct h
    (fun _ _ => h.map (fun _ => AppRecord.contend_profile) fun _ => AppRecord.contend_overlays) _

theorem mem_cover_overlays (k : Overlay) (b : Board) : k ∈ (b.cover k).overlays := by
  unfold cover
  dsimp only
  split
  · next on => simpa using on
  · simp

theorem notMem_uncover_overlays (k : Overlay) (b : Board) : k ∉ (b.uncover k).overlays := by simp [uncover]

theorem Layered.cover_of_mem (h : b.Layered) (isGlobal : k.isGlobal = true) (on : k ∈ b.overlays) : b.cover k = b := by
  rw [Board.cover, if_pos (by simpa using on)]
  exact map_apps_of_fixed fun r hr => AppRecord.lay_of_mem (((h.apps r hr).mem_iff isGlobal).mp on)

theorem Layered.uncover_of_notMem (h : b.Layered) (isGlobal : k.isGlobal = true) (off : k ∉ b.overlays) :
    b.uncover k = b := by
  rw [Board.uncover, Overlay.filter_ne_of_notMem off]
  exact map_apps_of_fixed fun r hr => AppRecord.lift_of_notMem fun on => off (((h.apps r hr).mem_iff isGlobal).mpr on)

theorem prompt_settle (h : b.Prompt) (a : Bool) : (b.settle a).board.Prompt := fun free => idle_settle (h free) a

theorem Layered.cover_again (h : b.Layered) (isGlobal : k.isGlobal = true) (a : Bool) :
    ((b.cover k).settle a).board.cover k = ((b.cover k).settle a).board :=
  ((h.cover isGlobal).settle a).cover_of_mem isGlobal (mem_cover_overlays k b)

theorem Layered.uncover_again (h : b.Layered) (ordered : b.apps.Ordered) (isGlobal : k.isGlobal = true) (a : Bool) :
    let once := ((b.uncover k).promote.settle a).board
    (once.uncover k).promote = once := by
  intro once
  have ordered' := ordered_uncover ordered k
  have off : k ∉ once.overlays := by
    change k ∉ (b.uncover k).promote.overlays
    rw [promote_overlays]
    exact notMem_uncover_overlays k b
  rw [(((h.uncover k).promote ordered').settle a).uncover_of_notMem isGlobal off]
  exact promote_of_prompt (prompt_settle (prompt_promote ordered') a)

theorem layOne_again (app : AppId) (k : Overlay) (a : Bool) (b : Board) :
    let once := ((b.modify app (·.lay k)).settle a).board
    once.modify app (·.lay k) = once := by
  refine modify_of_fixed fun s hs own => ?_
  obtain ⟨s₁, hs₁, rfl⟩ := List.mem_map.mp hs
  obtain ⟨s₀, -, rfl⟩ := List.mem_map.mp hs₁
  rw [AppRecord.informed_app, Roster.modify_keeps app (AppRecord.lay_app k)] at own
  refine AppRecord.lay_of_mem ?_
  rw [AppRecord.informed_overlays, if_pos own, AppRecord.lay_overlays]
  split
  · assumption
  · simp

theorem liftOne_again (ordered : b.apps.Ordered) (app : AppId) (k : Overlay) (a : Bool) :
    let once := ((b.modify app (·.lift k)).promote.settle a).board
    (once.modify app (·.lift k)).promote = once := by
  intro once
  have ordered' : (b.modify app (·.lift k)).apps.Ordered := ordered_modify ordered (AppRecord.lift_app k)
  have lifted : once.modify app (·.lift k) = once := by
    refine modify_of_fixed fun s hs own => AppRecord.lift_of_notMem ?_
    obtain ⟨s₂, hs₂, rfl⟩ := List.mem_map.mp hs
    -- Carrying out what waited lays nothing on a stack.
    obtain ⟨s₁, hs₁, profile, under⟩ := keepsStacks_promote ordered' s₂ hs₂
    obtain ⟨s₀, -, rfl⟩ := List.mem_map.mp hs₁
    have own : s₀.app = app := by
      rw [AppRecord.informed_app, AppRecord.app, ← profile, ← AppRecord.app,
        Roster.modify_keeps app (AppRecord.lift_app k)] at own
      exact own
    rw [AppRecord.informed_overlays, ← under, if_pos own]
    simp
  rw [lifted]
  exact promote_of_prompt (prompt_settle (prompt_promote ordered') a)

theorem record?_requested (ordered : b.apps.Ordered) (known : b.apps.record? app = some r) (asked : Status) (a : Bool) :
    ((b.arbitrate app asked).settle a).board.apps.record? app = some ((AppRecord.contend r asked r).informed a) := by
  have apps : (b.arbitrate app asked).apps = b.apps.map (AppRecord.contend r asked) :=
    Roster.arbitrate_eq_map ordered.distinct known asked
  change Roster.record? app ((b.arbitrate app asked).apps.map (·.informed a)) = _
  rw [Roster.record?_map (AppRecord.informed_app a), apps, Roster.record?_map fun _ => AppRecord.contend_app, known]
  rfl

theorem arbitrate_again (ordered : b.apps.Ordered) (known : b.apps.record? app = some r) (asked : Status) (a : Bool) :
    let once := ((b.arbitrate app asked).settle a).board
    once.arbitrate app asked = once := by
  intro once
  have ordered' : once.apps.Ordered := ordered_settle (ordered.arbitrate app asked) a
  have given : once.apps.arbitrate app asked =
      once.apps.map (AppRecord.contend ((AppRecord.contend r asked r).informed a) asked) :=
    Roster.arbitrate_eq_map ordered'.distinct (record?_requested ordered known asked a) asked
  rw [arbitrate, given]
  -- Everybody gave way to this request already, and whoever gave way to it gives no more the second time.
  refine map_apps_of_fixed fun s hs => AppRecord.contend_eq_self_iff.mpr ?_
  obtain ⟨s₁, hs₁, rfl⟩ := List.mem_map.mp hs
  change s₁ ∈ b.apps.arbitrate app asked at hs₁
  rw [Roster.arbitrate_eq_map ordered.distinct known] at hs₁
  obtain ⟨s₀, -, rfl⟩ := List.mem_map.mp hs₁
  calc (AppRecord.contend ((AppRecord.contend r asked r).informed a) asked
      ((AppRecord.contend r asked s₀).informed a)).regular
    _ = (AppRecord.contend r asked (AppRecord.contend r asked s₀)).regular :=
      AppRecord.contend_regular_congr ((AppRecord.informed_profile a _).trans AppRecord.contend_profile)
        (AppRecord.informed_profile a _) (AppRecord.informed_regular a _)
    _ = ((AppRecord.contend r asked s₀).informed a).regular := by
      rw [AppRecord.contend_contend, AppRecord.informed_regular]

/-! ### Calls -/

theorem request_of_flaw {axis : Axis} (flaw : asked.flaw? = some axis) (c : Conditions) (app : AppId)
    (id : Option CorrelationId) (b : Board) : b.request c app asked id = b.drop (.invalidStatus app axis) := by
  simp only [request, flaw]

theorem request_of_unknown (flawless : asked.flaw? = none) (unknown : b.apps.record? app = none) (c : Conditions)
    (id : Option CorrelationId) : b.request c app asked id = b.drop (.unknownApp app) := by
  simp only [request, flawless, unknown]

theorem request_of_waiting (flawless : asked.flaw? = none) (known : b.apps.record? app = some r)
    (waits : (b.isBlocked && !r.resuming) = true) (c : Conditions) (id : Option CorrelationId) :
    b.request c app asked id = { board := b.modify app (·.postpone asked), reply := .postponed } := by
  simp only [request, flawless, known, waits, ↓reduceIte]

theorem request_at_once (flawless : asked.flaw? = none) (known : b.apps.record? app = some r)
    (free : (b.isBlocked && !r.resuming) = false) (c : Conditions) :
    b.request c app asked none = b.requestNow c r asked := by
  simp only [request, flawless, known, free, Bool.false_eq_true, ↓reduceIte]

theorem request_at_hmi (flawless : asked.flaw? = none) (known : b.apps.record? app = some r)
    (free : (b.isBlocked && !r.resuming) = false) (c : Conditions) (number : CorrelationId) :
    b.request c app asked (some number) = b.requestActivation c r asked number := by
  simp only [request, flawless, known, free, Bool.false_eq_true, ↓reduceIte]

theorem record?_modified {f : AppRecord → AppRecord} (keeps : ∀ r, (f r).app = r.app)
    (known : b.apps.record? app = some r) : (b.modify app f).apps.record? app = some (f r) := by
  change (b.apps.modify app f).record? app = _
  rw [Roster.record?_modify keeps, known, Option.map_some, if_pos (Roster.record?_mem known).2]

theorem record?_settle (a : Bool) (app : AppId) (b : Board) :
    (b.settle a).board.apps.record? app = (b.apps.record? app).map (·.informed a) :=
  Roster.record?_map (AppRecord.informed_app a) app b.apps

theorem stays_requestNow (known : b.apps.record? r.app = some r) (given : b.arbitrate r.app asked = b)
    (aware : b.apps.Aware c.policy.attenuates) : (b.requestNow c r asked).Stays b := by
  rw [requestNow_eq known, given, settle_of_aware aware]
  dsimp only
  split
  · refine ⟨rfl, fun n hn => ?_⟩
    obtain rfl := List.mem_singleton.mp hn
    rfl
  · exact stays_keepSilent b

/-- What a request that is carried out at once leaves of the record of its application. -/
theorem record?_requestNow (ordered : b.apps.Ordered) (known : b.apps.record? r.app = some r) (c : Conditions)
    (asked : Status) : ∃ r', (b.requestNow c r asked).board.apps.record? r.app = some r' ∧
      r'.profile = r.profile ∧ r'.regular = asked.onLayer .regular := by
  rw [requestNow_board known]
  refine ⟨_, record?_requested ordered known asked _, ?_, ?_⟩
  · exact (AppRecord.informed_profile _ _).trans AppRecord.contend_profile
  · rw [AppRecord.informed_regular, AppRecord.contend_of_eq rfl]
    rfl

/-- What a request for an application that is registered leaves of its record. -/
theorem request_record? (known : b.apps.record? app = some r) (context : asked.context = r.regular.context)
    (ordered : b.apps.Ordered) (c : Conditions) :
    ∃ r', (b.request c app asked none).board.apps.record? app = some r' ∧ r'.profile = r.profile ∧
      r'.regular.context = r.regular.context := by
  obtain ⟨-, rfl⟩ := Roster.record?_mem known
  cases flaw : asked.flaw? with
  | some axis =>
    rw [request_of_flaw flaw]
    exact ⟨r, known, rfl, rfl⟩
  | none =>
    cases waits : b.isBlocked && !r.resuming with
    | true =>
      rw [request_of_waiting flaw known waits]
      exact ⟨_, record?_modified (fun _ => rfl) known, rfl, rfl⟩
    | false =>
      rw [request_at_once flaw known waits]
      obtain ⟨r', known', profile, regular⟩ := record?_requestNow ordered known c asked
      refine ⟨r', known', profile, ?_⟩
      rw [regular]
      exact context

theorem request_again (ordered : b.apps.Ordered) (same : c'.policy.attenuates = c.policy.attenuates) (app : AppId)
    (asked : Status) :
    let once := (b.request c app asked none).board
    (once.request c' app asked none).Stays once := by
  intro once
  cases flaw : asked.flaw? with
  | some axis =>
    rw [request_of_flaw flaw]
    exact stays_drop _ once
  | none =>
    cases known : b.apps.record? app with
    | none =>
      have first : once = b := congrArg Turn.board (request_of_unknown flaw known c none)
      rw [first, request_of_unknown flaw known]
      exact stays_drop _ b
    | some r =>
      obtain ⟨-, rfl⟩ := Roster.record?_mem known
      cases waits : b.isBlocked && !r.resuming with
      | true =>
        have first : once = b.modify r.app (·.postpone asked) :=
          congrArg Turn.board (request_of_waiting flaw known waits c none)
        have known' : once.apps.record? r.app = some (r.postpone asked) := by
          rw [first]
          exact record?_modified (fun _ => rfl) known
        have waits' : (once.isBlocked && !(r.postpone asked).resuming) = true := by
          rw [first]
          exact waits
        rw [request_of_waiting flaw known' waits', first]
        exact ⟨modify_again (fun _ => rfl) fun _ => rfl, fun _ hn => by cases hn⟩
      | false =>
        have first : once = ((b.arbitrate r.app asked).settle c.policy.attenuates).board :=
          (congrArg Turn.board (request_at_once flaw known waits c)).trans (requestNow_board known c asked)
        have known' : once.apps.record? r.app = some ((AppRecord.contend r asked r).informed c.policy.attenuates) := by
          rw [first]
          exact record?_requested ordered known asked c.policy.attenuates
        have app' : ((AppRecord.contend r asked r).informed c.policy.attenuates).app = r.app := by
          rw [AppRecord.informed_app, AppRecord.contend_app]
        have waits' : (once.isBlocked &&
            !((AppRecord.contend r asked r).informed c.policy.attenuates).resuming) = false := by
          rw [first, AppRecord.informed_resuming, AppRecord.contend_resuming]
          exact waits
        rw [request_at_once flaw known' waits']
        refine stays_requestNow (by rw [app']; exact known') ?_ ?_
        · rw [app', first]
          exact arbitrate_again ordered known asked c.policy.attenuates
        · rw [first, same]
          exact aware_settle _ _

theorem requestLevel_again (ordered : b.apps.Ordered) (same : c'.policy.attenuates = c.policy.attenuates) (app : AppId)
    (l : Level) :
    let once := (b.requestLevel c app l none).board
    (once.requestLevel c' app l none).Stays once := by
  intro once
  cases known : b.apps.record? app with
  | none =>
    have first : once = b := by simp only [once, requestLevel, known]; rfl
    rw [first, requestLevel, known]
    exact stays_drop _ b
  | some r =>
    have first : once = (b.request c app (r.capabilities.statusAt l r.regular.context) none).board := by
      simp only [once, requestLevel, known]
    have same_context : (r.capabilities.statusAt l r.regular.context).context = r.regular.context := rfl
    obtain ⟨r', known', profile, context⟩ := request_record? known same_context ordered c
    rw [← first] at known'
    simp only [requestLevel, known', AppRecord.capabilities, profile, context]
    rw [first]
    exact request_again ordered same app _

theorem deactivate_again (ordered : b.apps.Ordered) (same : c'.policy.attenuates = c.policy.attenuates)
    (app : AppId) :
    let once := (b.deactivate c app).board
    (once.deactivate c' app).Stays once := by
  intro once
  cases known : b.apps.record? app with
  | none =>
    have first : once = b := by simp only [once, deactivate, known]; rfl
    rw [first, deactivate, known]
    exact stays_drop _ b
  | some r =>
    by_cases display : (r.effective c.policy.attenuates).level = .full
    · have first : once = (b.requestLevel c app .background none).board := by
        simp only [once, deactivate, known, display, ↓reduceIte]
      -- Whatever the first one came to, the second drops, does nothing or asks for the same again.
      unfold deactivate
      split
      · exact stays_drop _ once
      · split
        · rw [first]
          exact requestLevel_again ordered same app .background
        · exact stays_keepSilent once
    · have first : once = b := by simp only [once, deactivate, known, display, ↓reduceIte]; rfl
      rw [first, deactivate, known]
      dsimp only
      rw [same, if_neg display]
      exact stays_keepSilent b

theorem register_again (p : Profile) (l : Level) :
    let once := (b.register c p l).board
    (once.register c' p l).Stays once := by
  intro once
  cases known : b.apps.record? p.app with
  | some r =>
    have taken : (b.apps.record? p.app).isSome = true := by rw [known]; rfl
    have first : once = b := congrArg Turn.board (register_of_taken taken c l)
    rw [first, register_of_taken taken]
    exact stays_drop _ b
  | none =>
    cases flaw : (p.capabilities.statusAt l .main).flaw? with
    | some axis =>
      have first : once = b := congrArg Turn.board (register_of_flaw known flaw c)
      rw [first, register_of_flaw known flaw]
      exact stays_drop _ b
    | none =>
      have taken : (once.apps.record? p.app).isSome = true := by
        change ((b.register c p l).board.apps.record? p.app).isSome = true
        rw [register_of_fresh known flaw, record?_settle, Option.isSome_map, arbitrate,
          Roster.isSome_record?_arbitrate]
        exact isSome_record?_enrol p b
      rw [register_of_taken taken]
      exact stays_drop _ once

theorem unregister_again (app : AppId) (b : Board) :
    let once := (b.unregister app).board
    (once.unregister app).Stays once := by
  intro once
  cases known : b.apps.record? app with
  | none =>
    have first : once = b := by simp only [once, unregister, known]; rfl
    rw [first, unregister, known]
    exact stays_drop _ b
  | some r =>
    have left : once.apps.record? app = none := by
      simp only [once, unregister, known, Roster.record?_eq_none_iff]
      exact fun s hs => by simpa using (List.mem_filter.mp hs).2
    rw [unregister, left]
    exact stays_drop _ once

theorem setResuming_again (app : AppId) (on : Bool) (b : Board) :
    let once := (b.setResuming app on).board
    (once.setResuming app on).Stays once := by
  intro once
  cases known : b.apps.record? app with
  | none =>
    have first : once = b := by simp only [once, setResuming, known]; rfl
    rw [first, setResuming, known]
    exact stays_drop _ b
  | some r =>
    have first : once = b.modify app (·.withResuming on) := by simp only [once, setResuming, known]; rfl
    have known' : once.apps.record? app = some (r.withResuming on) := by
      rw [first]
      exact record?_modified (fun _ => rfl) known
    have again : once.modify app (·.withResuming on) = once := by
      rw [first]
      exact modify_again (fun _ => rfl) fun _ => rfl
    rw [setResuming, known']
    dsimp only
    rw [again]
    exact stays_keepSilent once

theorem startStreaming_again (same : c'.policy.attenuates = c.policy.attenuates) (app : AppId) (b : Board) :
    let once := (b.startStreaming c app).board
    (once.startStreaming c' app).Stays once := by
  intro once
  cases known : b.apps.record? app with
  | none =>
    have first : once = b := by simp only [once, startStreaming, known]; rfl
    rw [first, startStreaming, known]
    exact stays_drop _ b
  | some r =>
    have first : once =
        ((b.modify app (·.lay r.capabilities.streamingOverlay)).settle c.policy.attenuates).board := by
      simp only [once, startStreaming, known]
    obtain ⟨r', known', profile⟩ : ∃ r', once.apps.record? app = some r' ∧ r'.profile = r.profile := by
      rw [first, record?_settle, record?_modified (AppRecord.lay_app _) known]
      exact ⟨_, rfl, by rw [AppRecord.informed_profile, AppRecord.lay_profile]⟩
    simp only [startStreaming, known', AppRecord.capabilities, profile, same]
    rw [first]
    exact stays_settle (layOne_again app _ _ b)

theorem stopStreaming_again (ordered : b.apps.Ordered) (same : c'.policy.attenuates = c.policy.attenuates)
    (app : AppId) :
    let once := (b.stopStreaming c app).board
    (once.stopStreaming c' app).Stays once := by
  intro once
  cases known : b.apps.record? app with
  | none =>
    have first : once = b := by simp only [once, stopStreaming, known]; rfl
    rw [first, stopStreaming, known]
    exact stays_drop _ b
  | some r =>
    have first : once =
        ((b.modify app (·.lift r.capabilities.streamingOverlay)).promote.settle c.policy.attenuates).board := by
      simp only [once, stopStreaming, known, conclude_tryPromote]
    have ordered' : (b.modify app (·.lift r.capabilities.streamingOverlay)).apps.Ordered :=
      ordered_modify ordered (AppRecord.lift_app _)
    have lifted : b.apps.Retains (b.modify app (·.lift r.capabilities.streamingOverlay)).apps :=
      (Roster.Retains.refl b.apps).modify fun _ => rfl
    obtain ⟨r', known', profile⟩ : ∃ r', once.apps.record? app = some r' ∧ r'.profile = r.profile := by
      rw [first]
      exact (retains_settle (retains_promote lifted ordered') _).record?
        (ordered_settle (ordered_promote ordered') _) known
    simp only [stopStreaming, known', AppRecord.capabilities, profile, same, conclude_tryPromote]
    rw [first]
    let k := r.capabilities.streamingOverlay
    exact stays_settle (X := fun b => (b.modify app (·.lift k)).promote) (liftOne_again ordered app k _)

theorem activationAnswered_pending (c : Conditions) (number : CorrelationId) (answer : Answer) (b : Board) :
    (b.activationAnswered c number answer).board.pending = b.pending.remove number := by
  cases resolved : b.pending.resolution number answer c.now c.timeout with
  | error f =>
    rw [activationAnswered_of_error resolved]
    rfl
  | ok a =>
    cases owner : b.apps.ofHmiApp? a.hmiApp with
    | none =>
      rw [activationAnswered_of_unknown resolved owner]
      rfl
    | some app =>
      rw [activationAnswered_of_ok resolved owner]
      rfl

theorem activationAnswered_again (number : CorrelationId) (answer : Answer) (b : Board) :
    let once := (b.activationAnswered c number answer).board
    (once.activationAnswered c' number answer).Stays once := by
  intro once
  have left : once.pending = b.pending.remove number := activationAnswered_pending c number answer b
  have gone : once.forget number = once := by
    have removed : once.pending.remove number = once.pending := by
      rw [left]
      simp [Pending.remove, Pending.filter, List.filter_filter]
    change { once with pending := once.pending.remove number } = once
    rw [removed]
  have unknown : once.pending.resolution number answer c'.now c'.timeout = .error (.unknownCorrelation number) := by
    rw [left, Pending.resolution, Pending.find?_remove_self]
  rw [activationAnswered_of_error unknown, gone]
  exact stays_drop _ once

theorem startOverlay_again (h : b.Layered) {k : Overlay} (isGlobal : k.isGlobal = true)
    (same : c'.policy.attenuates = c.policy.attenuates) :
    let once := (b.startOverlay c k).board
    (once.startOverlay c' k).Stays once := by
  intro once
  change ((once.cover k).settle c'.policy.attenuates).Stays once
  rw [same]
  exact stays_settle (h.cover_again isGlobal _)

theorem stopOverlay_again (h : b.Layered) (ordered : b.apps.Ordered) {k : Overlay} (isGlobal : k.isGlobal = true)
    (same : c'.policy.attenuates = c.policy.attenuates) :
    let once := (b.stopOverlay c k).board
    (once.stopOverlay c' k).Stays once := by
  intro once
  have first : once = ((b.uncover k).promote.settle c.policy.attenuates).board :=
    congrArg Turn.board (stopOverlay_eq c k b)
  rw [stopOverlay_eq, same, first]
  exact stays_settle (X := fun b => (b.uncover k).promote) (h.uncover_again ordered isGlobal _)

theorem handle_again (h : b.Layered) (ordered : b.apps.Ordered) (same : c'.policy.attenuates = c.policy.attenuates)
    (e : Event) :
    let once := (b.handle c none e).board
    (once.handle c' none e).Stays once := by
  cases e with
  | voiceStarted => exact startOverlay_again h rfl same
  | voiceStopped => exact stopOverlay_again h ordered rfl same
  | speechStarted => exact startOverlay_again h rfl same
  | speechStopped => exact stopOverlay_again h ordered rfl same
  | signalled signal active =>
    cases toggles : signal.overlay? with
    | none =>
      simp only [handle, toggles]
      exact stays_keepSilent b
    | some k =>
      have isGlobal := Signal.isGlobal_of_overlay? toggles
      cases active with
      | true =>
        simp only [handle, toggles, ↓reduceIte]
        exact startOverlay_again h isGlobal same
      | false =>
        simp only [handle, toggles, Bool.false_eq_true, ↓reduceIte]
        exact stopOverlay_again h ordered isGlobal same
  | streamingStarted app => exact startStreaming_again same app b
  | streamingStopped app => exact stopStreaming_again ordered same app
  | appActivated app => exact requestLevel_again ordered same app .full
  | appDeactivated app => exact deactivate_again ordered same app
  | activationAnswered number answer => exact activationAnswered_again number answer b

/-- A call for which no number was drawn does nothing the second time. Only a registration at the level that the
    policy gives may be refused for one level and carried out for the next. -/
theorem perform_again (h : b.Layered) (ordered : b.apps.Ordered) (same : c'.policy.attenuates = c.policy.attenuates)
    {call : Call} (named : ∀ p, call ≠ .registerDefault p) :
    let once := (b.perform c none call).board
    (once.perform c' none call).Stays once := by
  cases call with
  | register p l => exact register_again p l
  | registerDefault p => exact absurd rfl (named p)
  | unregister app => exact unregister_again app b
  | setResuming app on => exact setResuming_again app on b
  | request app asked activates => exact request_again ordered same app asked
  | requestAxes app l a v x => exact request_again ordered same app _
  | requestLevel app l => exact requestLevel_again ordered same app l
  | event e => exact handle_again h ordered same e

end Board

/-! ### Sessions -/

namespace Session.Reachable
variable {s : Session} {call : Call}

/-- With a host that gives no commands from inside the deliveries, and the flag left as it is: a call for which
    the HMI is not asked, given again at once, leaves all records, overlays and pending activations exactly as
    the first left them, and no application is told of a change. -/
theorem run_again (h : s.Reachable) (rest : s.outbox = {}) (aside : Reacts Command.IsAside s.host.reactions)
    (unasked : call.drawsId = false) (named : ∀ p, call ≠ .registerDefault p) :
    let once := (s.run (.call call)).1
    let twice := (once.run (.call call)).1
    once.policy.attenuates = s.policy.attenuates →
      twice.board = once.board ∧ ∀ n ∈ Log.delivered twice.host.log, n.isNews = false := by
  intro once twice flag
  have rest' : once.outbox = {} := run_outbox (by rw [rest]) _
  have aside' : Reacts Command.IsAside once.host.reactions := aside.run _
  have first : once.board = (s.turn call).board := run_call_board_of_undrawn rest aside unasked
  have second : twice.board = (once.turn call).board := run_call_board_of_undrawn rest' aside' unasked
  have again : (once.turn call).Stays once.board := by
    rw [turn_of_undrawn unasked, first, turn_of_undrawn unasked]
    exact Board.perform_again h.board.layered h.board.ordered flag named
  refine ⟨second.trans again.board, ?_⟩
  rw [delivered_run_call rest' aside' call]
  exact again.noNews

/-- Speech ends, and two requests that waited for that are carried out, the second at the cost of the first. When
    the end is reported once more, nobody moves. -/
theorem run_again_speech_stopped :
    let s := [Command.call (.register ⟨⟨1⟩, ⟨11⟩, { media := true }⟩ .background),
      .call (.register ⟨⟨2⟩, ⟨12⟩, { navigation := true }⟩ .background), .call (.event .speechStarted),
      .call (.requestAxes ⟨1⟩ .full .audible .notStreamable .main),
      .call (.requestAxes ⟨2⟩ .full .audible .streamable .main)].foldl (fun s c => (s.run c).1) ({} : Session)
    let call : Call := .event .speechStopped
    let once := (s.run (.call call)).1
    let twice := (once.run (.call call)).1
    (s.turn call).reply = .applied 2 ∧ twice.board = once.board ∧
      ∀ n ∈ Log.delivered twice.host.log, n.isNews = false := by
  intro s call once twice
  have rest : s.outbox = {} := by cbv
  have aside : Reacts Command.IsAside s.host.reactions := .of_eq_nil (by cbv)
  have flag : once.policy.attenuates = s.policy.attenuates := by
    subst once call s
    cbv
  have promoted : (s.turn call).reply = .applied 2 := by
    subst once call s
    cbv
  have reachable : s.Reachable := (Session.Reachable.fresh {} {}).runs _
  have named : ∀ p, call ≠ .registerDefault p := fun p => by simp [call]
  exact ⟨promoted, reachable.run_again rest aside rfl named flag⟩

end Session.Reachable

end HeadUnit
