import HeadUnit.Proofs.Layers
import HeadUnit.Proofs.Postponed

/-! To put a request off is to delay it and nothing else. While a blocking overlay is on, requests are only
    noted, the last one of each application in the place of those before it. When the overlay ends, the
    regular statuses become what they would have been, had these last requests been made one after the other,
    in the order of the roster, without the overlay. -/

namespace HeadUnit

/-! ### Requests -/

/-- A request for a regular status. -/
structure Request where
  app : AppId
  asked : Status
  activates : Bool := false
  deriving DecidableEq

namespace Request

def call (q : Request) : Call := .request q.app q.asked q.activates

/-- What the last valid request of an application asks for. -/
def last? (app : AppId) (qs : List Request) : Option Status :=
  (qs.filter fun q => q.app = app && q.asked.isValid).getLast?.map Request.asked

/-- The last valid request of each registered application that made one, in the order of the roster, to be
    carried out without an activation. -/
def lasts (apps : Roster) (qs : List Request) : List Request :=
  apps.filterMap fun r => (last? r.app qs).map fun s => { app := r.app, asked := s }

variable {app : AppId} {qs : List Request} {q : Request} {s : Status} {apps : Roster}

theorem last?_concat : last? app (qs ++ [q]) =
    if q.app = app ∧ q.asked.isValid = true then some q.asked else last? app qs := by
  unfold last?
  rw [List.filter_append]
  split
  · next h =>
    rw [List.filter_cons_of_pos (by simpa using h)]
    simp
  · next h =>
    rw [List.filter_cons_of_neg (by simpa using h)]
    simp

theorem isValid_of_last? (h : last? app qs = some s) : s.isValid = true := by
  obtain ⟨q, hq, rfl⟩ := Option.map_eq_some_iff.mp h
  have due := (List.mem_filter.mp (List.mem_of_getLast? hq)).2
  simp only [Bool.and_eq_true] at due
  exact due.2

theorem ordered_lasts (ordered : apps.Ordered) (qs : List Request) :
    (lasts apps qs).Pairwise fun q q' => q.app.number.toNat < q'.app.number.toNat := by
  refine List.Pairwise.filterMap _ ?_ ordered
  intro r r' lt q hq q' hq'
  obtain ⟨s, -, rfl⟩ := Option.map_eq_some_iff.mp hq
  obtain ⟨s', -, rfl⟩ := Option.map_eq_some_iff.mp hq'
  exact lt

theorem mem_lasts (h : q ∈ lasts apps qs) : q.asked.isValid = true ∧ q.activates = false := by
  obtain ⟨r, -, hr⟩ := List.mem_filterMap.mp h
  obtain ⟨s, hs, rfl⟩ := Option.map_eq_some_iff.mp hr
  exact ⟨isValid_of_last? hs, rfl⟩

end Request

/-! ### Records -/

namespace AppRecord
variable {r asker : AppRecord} {asked : Status} {qs : List Request} {q : Request}

/-- The record after requests that were put off. -/
def deferring (qs : List Request) (r : AppRecord) : AppRecord :=
  (Request.last? r.app qs).elim r (r.postpone ·)

theorem deferring_eq (qs : List Request) (r : AppRecord) :
    r.deferring qs = { r with postponed? := (r.deferring qs).postponed? } := by
  unfold deferring
  cases Request.last? r.app qs <;> rfl

theorem deferring_concat : r.deferring (qs ++ [q]) =
    if r.app = q.app ∧ q.asked.isValid = true then (r.deferring qs).postpone q.asked else r.deferring qs := by
  unfold deferring
  rw [Request.last?_concat]
  by_cases due : q.app = r.app ∧ q.asked.isValid = true
  · rw [if_pos due, if_pos ⟨due.1.symm, due.2⟩]
    cases Request.last? r.app qs <;> rfl
  · rw [if_neg due, if_neg fun h => due ⟨h.1.symm, h.2⟩]

theorem deferring_postponed? (idle : r.postponed? = none) :
    (r.deferring qs).postponed? = (Request.last? r.app qs).map (·.onLayer .regular) := by
  unfold deferring
  cases Request.last? r.app qs with
  | none => exact idle
  | some s => rfl

/-- What arbitration reads of a record, and nothing else. -/
def bare (r : AppRecord) : AppRecord := { profile := r.profile, regular := r.regular }

theorem informed_bare (a : Bool) (r : AppRecord) : (r.informed a).bare = r.bare := by
  unfold informed
  split <;> rfl

theorem lay_bare (k : Overlay) (r : AppRecord) : (r.lay k).bare = r.bare := by
  rw [lay_eq]
  rfl

theorem deferring_bare (qs : List Request) (r : AppRecord) : (r.deferring qs).bare = r.bare := by
  rw [deferring_eq]
  rfl

end AppRecord

/-! ### Rosters -/

namespace Roster
variable {apps : Roster}

def bare (apps : Roster) : Roster := apps.map AppRecord.bare

/-- Carries requests out one after the other. -/
def arbitrateAll (as : List Assignment) (apps : Roster) : Roster :=
  as.foldl (fun apps a => apps.arbitrate a.1 a.2) apps

/-- What waits, in the order of the roster. -/
def waiting (apps : Roster) : List Assignment := apps.filterMap fun r => r.postponed?.map fun s => (r.app, s)

theorem bare_map {f : AppRecord → AppRecord} (keeps : ∀ r, (f r).bare = r.bare) : bare (apps.map f) = apps.bare := by
  rw [bare, List.map_map]
  exact List.map_congr_left fun r _ => keeps r

theorem record?_bare (app : AppId) (apps : Roster) :
    apps.bare.record? app = (apps.record? app).map AppRecord.bare :=
  record?_map (f := AppRecord.bare) (fun _ => rfl) app apps

theorem regular?_bare (app : AppId) (apps : Roster) :
    (apps.bare.record? app).map (·.regular) = (apps.record? app).map (·.regular) := by
  rw [record?_bare, Option.map_map]
  rfl

theorem Ordered.arbitrate_bare (h : apps.Ordered) (target : AppId) (asked : Status) :
    (apps.arbitrate target asked).bare = apps.bare.arbitrate target asked :=
  (h.arbitrate_map (g := AppRecord.bare) (fun _ => rfl) (fun _ => rfl) (fun _ _ => rfl) target asked).symm

theorem Ordered.arbitrateAll_bare (h : apps.Ordered) (as : List Assignment) :
    (apps.arbitrateAll as).bare = apps.bare.arbitrateAll as := by
  induction as generalizing apps with
  | nil => rfl
  | cons a as ih =>
    change ((apps.arbitrate a.1 a.2).arbitrateAll as).bare = (apps.bare.arbitrate a.1 a.2).arbitrateAll as
    rw [ih (h.arbitrate _ _), h.arbitrate_bare]

/-- The layer of a request makes no difference: what becomes regular is tagged as regular. -/
theorem arbitrate_onLayer (target : AppId) (asked : Status) (l : Layer) (apps : Roster) :
    apps.arbitrate target (asked.onLayer l) = apps.arbitrate target asked := by
  unfold arbitrate assignments
  cases apps.record? target <;> rfl

theorem arbitrateAll_onLayer (as : List Assignment) (l : Layer) (apps : Roster) :
    apps.arbitrateAll (as.map fun a => (a.1, a.2.onLayer l)) = apps.arbitrateAll as := by
  induction as generalizing apps with
  | nil => rfl
  | cons a as ih =>
    change (apps.arbitrate a.1 (a.2.onLayer l)).arbitrateAll _ = (apps.arbitrate a.1 a.2).arbitrateAll as
    rw [arbitrate_onLayer, ih]

end Roster

/-! ### Boards -/

namespace Board
variable {b : Board} {c : Conditions} {q : Request}

/-- A promotion carries what waits out, one request after the other. -/
theorem promote_apps (free : b.isBlocked = false) :
    b.promote.apps = Roster.arbitrateAll b.apps.waiting (b.apps.map (·.clearPostponed)) := by
  have carried : ∀ (as : List Assignment) (b' : Board),
      (as.foldl (fun b x => b.arbitrate x.1 x.2) b').apps = b'.apps.arbitrateAll as := by
    intro as
    induction as with
    | nil => exact fun _ => rfl
    | cons a as ih => exact fun b' => ih (b'.arbitrate a.1 a.2)
  rw [promote, if_neg (by simp [free])]
  exact carried _ _

/-- Under a blocking overlay a request is noted, if it is valid and its application registered and not
    resuming; that is all. -/
theorem request_of_blocked (c : Conditions) (id : Option CorrelationId) (blocked : b.isBlocked = true)
    (waits : ∀ r ∈ b.apps, r.app = q.app → r.resuming = false) :
    let t := b.request c q.app q.asked id
    t.notices = [] ∧
      t.board = { b with apps := b.apps.map fun r =>
        if r.app = q.app ∧ q.asked.isValid = true then r.postpone q.asked else r } ∧
      ((q.asked.isValid = true ∧ (b.apps.record? q.app).isSome = true → t.reply = .postponed) ∧
        (¬(q.asked.isValid = true ∧ (b.apps.record? q.app).isSome = true) → ∃ f, t.reply = .dropped f)) := by
  intro t
  have untouched : (∀ r ∈ b.apps, ¬(r.app = q.app ∧ q.asked.isValid = true)) →
      { b with apps := b.apps.map fun r =>
        if r.app = q.app ∧ q.asked.isValid = true then r.postpone q.asked else r } = b := by
    intro other
    rw [List.map_congr_left fun r hr => if_neg (other r hr), List.map_id']
  cases flaw : q.asked.flaw? with
  | some axis =>
    have invalid : ¬q.asked.isValid = true := by
      rw [← Status.flaw?_eq_none_iff, flaw]
      simp
    have refused : t = b.drop (.invalidStatus q.app axis) := by simp only [t, request, flaw]
    rw [refused, untouched fun _ _ h => invalid h.2]
    exact ⟨rfl, rfl, fun h => absurd h.1 invalid, fun _ => ⟨_, rfl⟩⟩
  | none =>
    have valid := Status.flaw?_eq_none_iff.mp flaw
    cases known : b.apps.record? q.app with
    | none =>
      have unknown := Roster.record?_eq_none_iff.mp known
      have refused : t = b.drop (.unknownApp q.app) := by simp only [t, request, flaw, known]
      rw [refused, untouched fun r hr h => unknown r hr h.1]
      exact ⟨rfl, rfl, fun h => (by cases h.2), fun _ => ⟨_, rfl⟩⟩
    | some r =>
      obtain ⟨hr, happ⟩ := Roster.record?_mem known
      have noted : t = { board := b.modify q.app (·.postpone q.asked), reply := .postponed } := by
        simp only [t, request, flaw, known, blocked, waits r hr happ, Bool.not_false, Bool.and_self, ↓reduceIte]
      rw [noted]
      refine ⟨rfl, ?_, fun _ => rfl, fun h => absurd ⟨valid, rfl⟩ h⟩
      simp only [modify, Roster.modify, valid, and_true]

/-- Where nothing blocks, a valid request is carried out. -/
theorem request_of_free (c : Conditions) (app : AppId) {asked : Status} (free : b.isBlocked = false)
    (ordered : b.apps.Ordered) (valid : asked.isValid = true) :
    (b.request c app asked none).board.apps.bare = b.apps.bare.arbitrate app asked ∧
      (b.request c app asked none).board.overlays = b.overlays := by
  have flawless := Status.flaw?_eq_none_iff.mpr valid
  rw [← ordered.arbitrate_bare]
  cases known : b.apps.record? app with
  | none =>
    simp only [request, flawless, known, Roster.arbitrate_of_unknown known]
    exact ⟨rfl, rfl⟩
  | some r =>
    obtain ⟨-, rfl⟩ := Roster.record?_mem known
    simp only [request, flawless, known, free, Bool.false_and, Bool.false_eq_true, ↓reduceIte, requestNow_board known]
    exact ⟨Roster.bare_map (AppRecord.informed_bare _), rfl⟩

/-- When the blocking overlay ends, the last requests are carried out on the regular statuses of before, and
    nothing is left waiting. -/
theorem stopOverlay_of_deferred {during : Board} {k : Overlay} {qs : List Request} {f : AppRecord → AppRecord}
    (free : b.isBlocked = false) (ordered : b.apps.Ordered) (new : k ∉ b.overlays)
    (overlays : during.overlays = b.overlays ++ [k]) (apps : during.apps = b.apps.map f)
    (bare : ∀ r, (f r).bare = r.bare)
    (slots : ∀ r ∈ b.apps, (f r).postponed? = (Request.last? r.app qs).map (·.onLayer .regular)) :
    (during.stopOverlay c k).board.apps.bare =
        b.apps.bare.arbitrateAll ((Request.lasts b.apps qs).map fun q => (q.app, q.asked)) ∧
      (during.stopOverlay c k).board.apps.Idle := by
  have free' : (during.uncover k).isBlocked = false := by
    have same : (during.uncover k).overlays = b.overlays := by
      change during.overlays.filter (· ≠ k) = _
      rw [overlays, List.filter_append,
        List.filter_eq_self.mpr fun k' hk' => by simpa using ne_of_mem_of_not_mem hk' new]
      simp
    rw [isBlocked, same]
    exact free
  have app : ∀ r, (f r).app = r.app := fun r => by
    change (f r).bare.app = r.bare.app
    rw [bare]
  have ordered' : (during.uncover k).apps.Ordered := by
    refine ordered_uncover ?_ k
    rw [apps]
    exact ordered.map app
  have waiting : (during.uncover k).apps.waiting =
      ((Request.lasts b.apps qs).map fun q => (q.app, q.asked)).map fun a => (a.1, a.2.onLayer .regular) := by
    change Roster.waiting (during.apps.map (·.lift k)) = _
    rw [apps, Roster.waiting, Request.lasts, List.map_map, List.filterMap_map, List.map_map, List.map_filterMap]
    refine List.filterMap_congr fun r hr => ?_
    change ((f r).postponed?.map fun s => ((f r).app, s)) = _
    rw [slots r hr, app, Option.map_map, Option.map_map]
    rfl
  have cleared : Roster.bare ((during.uncover k).apps.map (·.clearPostponed)) = b.apps.bare := by
    change Roster.bare ((during.apps.map (·.lift k)).map (·.clearPostponed)) = _
    rw [Roster.bare_map (f := (·.clearPostponed)) fun _ => rfl, Roster.bare_map (f := (·.lift k)) fun _ => rfl,
      apps, Roster.bare_map bare]
  rw [stopOverlay_eq]
  refine ⟨?_, idle_settle (idle_promote ordered' free') _⟩
  calc (settle c.policy.attenuates (during.uncover k).promote).board.apps.bare
    _ = (during.uncover k).promote.apps.bare := Roster.bare_map (AppRecord.informed_bare _)
    _ = b.apps.bare.arbitrateAll (during.uncover k).apps.waiting := by
      have ordered'' := ordered'.map (f := (·.clearPostponed)) fun _ => rfl
      rw [promote_apps free', ordered''.arbitrateAll_bare, cleared]
    _ = _ := by rw [waiting, Roster.arbitrateAll_onLayer]

end Board

/-! ### Sessions -/

namespace Session
variable {s t : Session} {qs : List Request} {q : Request}

/-- Makes requests one after the other. -/
def requestAll (qs : List Request) (s : Session) : Session := qs.foldl (fun s q => (s.run (.call q.call)).1) s

/-- The second session differs from the first by requests that were put off: they are noted, and neither the
    host nor any application has heard of them. -/
structure Defers (qs : List Request) (s t : Session) : Prop where
  board : t.board = { s.board with apps := s.board.apps.map (·.deferring qs) }
  outbox : t.outbox = {}
  received : t.host.received = s.host.received
  reactions : t.host.reactions = s.host.reactions
  policy : t.policy = s.policy

namespace Defers

theorem refl (rest : s.outbox = {}) : Defers [] s s where
  board := by
    have same : s.board.apps.map (·.deferring []) = s.board.apps := List.map_id _
    rw [same]
  outbox := rest
  received := rfl
  reactions := rfl
  policy := rfl

variable (h : Defers qs s t) (blocked : s.board.isBlocked = true)
  (waits : ∀ r ∈ s.board.apps, r.app = q.app → r.resuming = false)

include h in
theorem record? (app : AppId) : t.board.apps.record? app = (s.board.apps.record? app).map (·.deferring qs) := by
  rw [h.board]
  refine Roster.record?_map (fun r => ?_) app s.board.apps
  rw [AppRecord.deferring_eq]
  rfl

include h in
theorem regular? (app : AppId) : (t.view app).regular? = (s.view app).regular? := by
  rw [view_regular?, view_regular?, h.record?, Option.map_map]
  refine congrArg (Option.map · _) (funext fun r => ?_)
  rw [Function.comp_apply, AppRecord.deferring_eq]

include h in
theorem current? (app : AppId) : (t.view app).current? = (s.view app).current? := by
  rw [view_current?, view_current?, h.record?, Option.map_map, h.policy]
  refine congrArg (Option.map · _) (funext fun r => ?_)
  rw [Function.comp_apply, AppRecord.deferring_eq]
  rfl

include h blocked waits in
theorem turn : let x := t.turn q.call
    x.notices = [] ∧ x.board = { s.board with apps := s.board.apps.map (·.deferring (qs ++ [q])) } ∧
      ((q.asked.isValid = true ∧ (s.board.apps.record? q.app).isSome = true → x.reply = .postponed) ∧
        (¬(q.asked.isValid = true ∧ (s.board.apps.record? q.app).isSome = true) → ∃ f, x.reply = .dropped f)) := by
  have blocked' : t.board.isBlocked = true := by
    rw [h.board]
    exact blocked
  have waits' : ∀ r ∈ t.board.apps, r.app = q.app → r.resuming = false := by
    intro r hr
    rw [h.board] at hr
    obtain ⟨r₀, hr₀, rfl⟩ := List.mem_map.mp hr
    rw [AppRecord.deferring_eq]
    exact waits r₀ hr₀
  obtain ⟨silent, board, reply⟩ := Board.request_of_blocked t.conditions (t.drawn? q.call) blocked' waits'
  refine ⟨silent, board.trans ?_, ?_⟩
  · rw [h.board]
    dsimp only
    rw [List.map_map]
    have same : ∀ r : AppRecord, (r.deferring qs).app = r.app := fun r => by
      rw [AppRecord.deferring_eq]
      rfl
    congr 1
    refine List.map_congr_left fun r _ => ?_
    rw [AppRecord.deferring_concat, Function.comp_apply, same]
  · rw [h.record?, Option.isSome_map] at reply
    exact reply

include h blocked waits in
theorem concat : Defers (qs ++ [q]) s (t.run (.call q.call)).1 := by
  obtain ⟨silent, board, -⟩ := h.turn blocked waits
  rw [run_of_silent h.outbox silent]
  refine ⟨?_, ?_, ?_, ?_, ?_⟩
  · rw [enter_call_board, turn_opened, board]
  · rw [enter_call_outbox, turn_opened, silent]
    simp [opened, h.outbox, Outbox.extend]
  · rw [enter_call_received]
    exact h.received
  · rw [enter_reactions]
    exact h.reactions
  · rw [enter_call_policy]
    exact h.policy

include h blocked waits in
/-- The next request is answered, and shows nowhere. -/
theorem request : let next := t.run (.call q.call)
    ((q.asked.isValid = true ∧ (s.board.apps.record? q.app).isSome = true → next.2 = .reply .postponed) ∧
        (¬(q.asked.isValid = true ∧ (s.board.apps.record? q.app).isSome = true) →
          ∃ f, next.2 = .reply (.dropped f))) ∧
      next.1.host.received = t.host.received ∧ next.1.board.pending = t.board.pending ∧
      ∀ app, (next.1.view app).regular? = (t.view app).regular? ∧
        (next.1.view app).current? = (t.view app).current? := by
  intro next
  have after : Defers (qs ++ [q]) s next.1 := h.concat blocked waits
  obtain ⟨-, -, postponed, dropped⟩ := h.turn blocked waits
  refine ⟨⟨fun due => ?_, fun undue => ?_⟩, ?_, ?_, fun app => ⟨?_, ?_⟩⟩
  · rw [run_call_reply, postponed due]
  · obtain ⟨f, hf⟩ := dropped undue
    exact ⟨f, by rw [run_call_reply, hf]⟩
  · exact after.received.trans h.received.symm
  · rw [after.board, h.board]
  · exact (after.regular? app).trans (h.regular? app).symm
  · exact (after.current? app).trans (h.current? app).symm

end Defers

/-- Under a blocking overlay, requests of applications that are not resuming are put off, whatever their
    number. -/
theorem requestAll_of_blocked (rest : s.outbox = {}) (blocked : s.board.isBlocked = true)
    (waits : ∀ q ∈ qs, ∀ r ∈ s.board.apps, r.app = q.app → r.resuming = false) : Defers qs s (s.requestAll qs) := by
  induction qs using List.reverseRecOn with
  | nil => exact .refl rest
  | append_singleton qs q ih =>
    rw [requestAll, List.foldl_append]
    exact (ih fun q' hq' => waits q' (List.mem_append_left _ hq')).concat blocked
      (waits q (List.mem_append_right _ List.mem_cons_self))

/-- Where nothing blocks, valid requests are carried out one after the other. -/
theorem requestAll_of_free (aside : Reacts Command.IsAside s.host.reactions) (free : s.board.isBlocked = false)
    (ordered : s.board.apps.Ordered) (direct : ∀ q ∈ qs, q.asked.isValid = true ∧ q.activates = false) :
    (s.requestAll qs).board.apps.bare = s.board.apps.bare.arbitrateAll (qs.map fun q => (q.app, q.asked)) := by
  induction qs generalizing s with
  | nil => rfl
  | cons q qs ih =>
    obtain ⟨valid, plain⟩ := direct q List.mem_cons_self
    obtain ⟨keep, board⟩ := run_call_board aside q.call
    have turn : s.turn q.call = s.board.request s.conditions q.app q.asked none := by
      have undrawn : s.drawn? q.call = none := by
        rw [drawn?, Request.call, Call.drawsId, plain]
        rfl
      rw [Session.turn, undrawn]
      rfl
    obtain ⟨bare, overlays⟩ := Board.request_of_free s.conditions q.app free ordered valid
    rw [turn] at board
    have next := ih (s := (s.run (.call q.call)).1) (aside.run _)
      (by
        rw [board, Board.isBlocked, Board.keepPending, overlays]
        exact free)
      (by
        rw [board]
        exact (Board.request_effect s.conditions q.app q.asked none s.board).ordered ordered)
      fun q' hq' => direct q' (List.mem_cons_of_mem _ hq')
    rw [requestAll, List.foldl_cons, ← requestAll, next, board]
    change Roster.arbitrateAll _ (s.board.request s.conditions q.app q.asked none).board.apps.bare = _
    rw [bare]
    rfl

/-- The second session differs from the first by a global overlay that has started, of which some
    applications were told. -/
structure Begins (k : Overlay) (s t : Session) : Prop where
  overlays : t.board.overlays = s.board.overlays ++ [k]
  apps : ∃ a, t.board.apps = s.board.apps.map fun r => (r.lay k).informed a
  reactions : Reacts Command.IsAside t.host.reactions

theorem run_start {k : Overlay} {start : Event} (aside : Reacts Command.IsAside s.host.reactions)
    (new : k ∉ s.board.overlays) (starts : start.starts? = some k) :
    Begins k s (s.run (.call (.event start))).1 := by
  obtain ⟨keep, board⟩ := run_call_board aside (.event start)
  have turn : s.turn (.event start) = s.board.startOverlay s.conditions k := Board.handle_of_starts starts
  rw [turn] at board
  refine ⟨?_, ⟨s.conditions.policy.attenuates, ?_⟩, aside.run _⟩
  · rw [board]
    exact if_neg (by simpa using new)
  · rw [board]
    exact List.map_map ..

namespace Begins
variable {k : Overlay} (h : Begins k s t)

include h in
theorem isSome_record? (app : AppId) :
    (t.board.apps.record? app).isSome = (s.board.apps.record? app).isSome := by
  obtain ⟨a, apps⟩ := h.apps
  rw [apps, Roster.record?_map fun r => (AppRecord.informed_app a _).trans (AppRecord.lay_app k r), Option.isSome_map]

include h in
theorem waits (waits : ∀ r ∈ s.board.apps, r.app = q.app → r.resuming = false) :
    ∀ r ∈ t.board.apps, r.app = q.app → r.resuming = false := by
  obtain ⟨a, apps⟩ := h.apps
  intro r hr happ
  rw [apps] at hr
  obtain ⟨r₀, hr₀, rfl⟩ := List.mem_map.mp hr
  rw [AppRecord.informed_app, AppRecord.lay_app] at happ
  rw [AppRecord.informed_resuming, AppRecord.lay_resuming]
  exact waits r₀ hr₀ happ

include h in
/-- When the overlay stops, the requests that were put off meanwhile are carried out. -/
theorem stop {u : Session} (defers : Defers qs t u) (free : s.board.isBlocked = false)
    (ordered : s.board.apps.Ordered) (idle : s.board.apps.Idle) (new : k ∉ s.board.overlays) {stop : Event}
    (stops : stop.stops? = some k) : let ended := (u.run (.call (.event stop))).1
    ended.board.apps.bare =
        s.board.apps.bare.arbitrateAll ((Request.lasts s.board.apps qs).map fun q => (q.app, q.asked)) ∧
      ended.board.apps.Idle := by
  intro ended
  obtain ⟨a, apps⟩ := h.apps
  obtain ⟨keep, board⟩ := run_call_board (defers.reactions ▸ h.reactions) (.event stop)
  have turn : u.turn (.event stop) = u.board.stopOverlay u.conditions k := Board.handle_of_stops stops
  rw [turn] at board
  rw [board]
  refine Board.stopOverlay_of_deferred (f := fun r => ((r.lay k).informed a).deferring qs) free ordered new
    ?_ ?_ (fun r => ?_) fun r hr => ?_
  · rw [defers.board, h.overlays]
  · rw [defers.board, apps]
    exact List.map_map ..
  · rw [AppRecord.deferring_bare, AppRecord.informed_bare, AppRecord.lay_bare]
  · have noted : ((r.lay k).informed a).postponed? = none := by
      rw [AppRecord.informed_postponed?, AppRecord.lay_postponed?]
      exact idle r hr
    rw [AppRecord.deferring_postponed? noted, AppRecord.informed_app, AppRecord.lay_app]

end Begins

namespace Reachable

/-- A blocking overlay starts, requests are made, and it stops again, while nothing blocks otherwise and none
    of the applications asked for is resuming. During the overlay each valid request of a registered
    application is answered as postponed and every other dropped; nothing is delivered, and neither statuses
    nor pending activations change. In the end the regular statuses are those that the last valid requests
    bring about without the overlay, in ascending order of the applications, and no request waits. -/
theorem postponement_delays (h : s.Reachable) (rest : s.outbox = {})
    (aside : Reacts Command.IsAside s.host.reactions) (free : s.board.isBlocked = false) {k : Overlay}
    (blocks : k.isBlocking = true) {start stop : Event} (starts : start.starts? = some k)
    (stops : stop.stops? = some k) (qs : List Request)
    (waits : ∀ q ∈ qs, ∀ r ∈ s.board.apps, r.app = q.app → r.resuming = false) :
    let begun := (s.run (.call (.event start))).1
    let ended := ((begun.requestAll qs).run (.call (.event stop))).1
    let lasts := Request.lasts s.board.apps qs
    (∀ before q after, qs = before ++ q :: after →
      let now := begun.requestAll before
      let next := now.run (.call q.call)
      ((q.asked.isValid = true ∧ (s.board.apps.record? q.app).isSome = true → next.2 = .reply .postponed) ∧
          (¬(q.asked.isValid = true ∧ (s.board.apps.record? q.app).isSome = true) →
            ∃ f, next.2 = .reply (.dropped f))) ∧
        next.1.host.received = now.host.received ∧ next.1.board.pending = now.board.pending ∧
        ∀ app, (next.1.view app).regular? = (now.view app).regular? ∧
          (next.1.view app).current? = (now.view app).current?) ∧
      lasts.Pairwise (fun q q' => q.app.number.toNat < q'.app.number.toNat) ∧
      ∀ app, (ended.view app).regular? = ((s.requestAll lasts).view app).regular? ∧
        (ended.view app).postponed? = none := by
  intro begun ended lasts
  have new : k ∉ s.board.overlays := fun on => by
    rw [Board.isBlocked_iff.mpr ⟨k, on, blocks⟩] at free
    cases free
  have begins : Begins k s begun := run_start aside new starts
  have blocked : begun.board.isBlocked = true :=
    Board.isBlocked_iff.mpr ⟨k, begins.overlays ▸ List.mem_append_right _ List.mem_cons_self, blocks⟩
  have rest' : begun.outbox = {} := run_outbox (by rw [rest]) _
  have defers : ∀ ps : List Request, (∀ q ∈ ps, q ∈ qs) → Defers ps begun (begun.requestAll ps) :=
    fun ps sub => requestAll_of_blocked rest' blocked fun q hq => begins.waits (waits q (sub q hq))
  refine ⟨?_, Request.ordered_lasts h.board.ordered qs, fun app => ?_⟩
  · intro before q after split now next
    have made : ∀ q' ∈ before, q' ∈ qs := fun q' hq' => split ▸ List.mem_append_left _ hq'
    have mem : q ∈ qs := split ▸ List.mem_append_right _ List.mem_cons_self
    have answered := (defers before made).request blocked (begins.waits (waits q mem))
    rw [begins.isSome_record?] at answered
    exact answered
  · obtain ⟨bare, idle⟩ := begins.stop (defers qs fun _ hq => hq) free h.board.ordered (h.board.prompt free) new stops
    have same : ended.board.apps.bare = (s.requestAll lasts).board.apps.bare :=
      bare.trans (requestAll_of_free aside free h.board.ordered fun q hq => Request.mem_lasts hq).symm
    constructor
    · rw [view_regular?, view_regular?, ← Roster.regular?_bare, same, Roster.regular?_bare]
    · rw [view_postponed?]
      exact Option.bind_eq_none_iff.mpr fun r hr => idle r (Roster.record?_mem hr).1

/-- The radio asks twice and the navigation once, with an activation; two more requests come to nothing. -/
theorem postponement_delays_overwritten :
    let radio : AppId := ⟨1⟩
    let navi : AppId := ⟨2⟩
    let s := [Command.call (.register ⟨radio, ⟨11⟩, { media := true }⟩ .full),
      .call (.register ⟨navi, ⟨12⟩, { navigation := true }⟩ .background)].foldl (fun s c => (s.run c).1) ({} : Session)
    let full : Status := ⟨.full, .audible, .notStreamable, .main, .regular⟩
    let qs : List Request :=
      [⟨radio, { full with level := .background, audio := .notAudible }, false⟩, ⟨navi, full, true⟩,
        ⟨⟨9⟩, full, false⟩, ⟨radio, full, false⟩, ⟨navi, { full with level := .invalid }, false⟩]
    let begun := (s.run (.call (.event .voiceStarted))).1
    let ended := ((begun.requestAll qs).run (.call (.event .voiceStopped))).1
    Request.lasts s.board.apps qs = [⟨radio, full, false⟩, ⟨navi, full, false⟩] ∧
      (ended.view radio).regular? = some { full with level := .limited } ∧
      (ended.view navi).regular? = some full ∧
      ∀ app, (ended.view app).regular? = ((s.requestAll (Request.lasts s.board.apps qs)).view app).regular? ∧
        (ended.view app).postponed? = none := by
  intro radio navi s full qs begun ended
  have reachable : s.Reachable := (Session.Reachable.fresh {} {}).runs _
  have delayed := postponement_delays (s := s) reachable (by cbv)
    (.of_eq_nil (by cbv))
    (by cbv) (show Overlay.voiceSession.isBlocking = true from rfl)
    (show Event.starts? .voiceStarted = some .voiceSession from rfl)
    (show Event.stops? .voiceStopped = some .voiceSession from rfl) qs
    (by
      have awake : ∀ r ∈ s.board.apps, r.resuming = false := by
        have none : s.board.apps.map (·.resuming) = [false, false] := by cbv
        intro r hr
        have mem := none ▸ List.mem_map_of_mem hr
        simpa using mem
      exact fun _ _ r hr _ => awake r hr)
  exact ⟨by cbv, by cbv, by cbv, delayed.2.2⟩

end Reachable

end Session

end HeadUnit
