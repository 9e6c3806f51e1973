import HeadUnit.Proofs.Overtaking
import HeadUnit.Proofs.Repetition

/-! A global overlay that is over has left no trace. Regular statuses do not depend on what lies over them, and a
    stack loses the overlay from wherever it lies. So whatever else started, stopped, came or went meanwhile would
    have led to the same board without it; only what the applications were told in between differs. -/

namespace HeadUnit

/-! ### Stacks -/

namespace Overlay
variable {j k : Overlay}

theorem filter_push (ne : j ≠ k) (ks : List Overlay) : (if j ∈ ks then ks else ks ++ [j]).filter (· ≠ k) =
    if j ∈ ks.filter (· ≠ k) then ks.filter (· ≠ k) else ks.filter (· ≠ k) ++ [j] := by
  have same : j ∈ ks.filter (· ≠ k) ↔ j ∈ ks := by simp [ne]
  rw [if_congr same rfl rfl]
  split
  · rfl
  · simp [ne]

theorem filter_push_self (k : Overlay) (ks : List Overlay) :
    (if k ∈ ks then ks else ks ++ [k]).filter (· ≠ k) = ks.filter (· ≠ k) := by
  split
  · rfl
  · simp

end Overlay

/-! ### Records -/

namespace AppRecord
variable {r : AppRecord} {j k : Overlay}

/-- The record without an overlay, and without what the application was told. -/
def without (k : Overlay) (r : AppRecord) : AppRecord :=
  { r with overlays := r.overlays.filter (· ≠ k), told := .initial }

/-- All of the record but what the application was told. -/
def untold (r : AppRecord) : AppRecord := r.withTold .initial

theorem lay_without_self (k : Overlay) (r : AppRecord) : (r.lay k).without k = r.without k := by
  rw [without, lay_overlays, Overlay.filter_push_self, lay_eq]
  rfl

theorem lay_without (ne : j ≠ k) (r : AppRecord) : (r.lay j).without k = (r.without k).lay j := by
  rw [without, lay_overlays, Overlay.filter_push ne, lay_eq j r, lay_eq j (r.without k), lay_overlays j (r.without k)]
  rfl

theorem lift_without (j k : Overlay) (r : AppRecord) : (r.lift j).without k = (r.without k).lift j := by
  rw [without, lift, without, lift, List.filter_comm]

theorem lift_without_self (k : Overlay) (r : AppRecord) : (r.lift k).without k = r.without k := by
  rw [without, without, lift_overlays, List.filter_filter]
  simp [lift]

theorem informed_without (a : Bool) (k : Overlay) (r : AppRecord) : (r.informed a).without k = r.without k := by
  unfold informed
  split <;> rfl

theorem without_without (k : Overlay) (r : AppRecord) : (r.without k).without k = r.without k := by
  simp [without, List.filter_filter]

theorem foldl_lay_without (k : Overlay) (ks : List Overlay) (r : AppRecord) :
    (ks.foldl (fun r j => r.lay j) r).without k = (ks.filter (· ≠ k)).foldl (fun r j => r.lay j) (r.without k) := by
  induction ks generalizing r with
  | nil => rfl
  | cons j ks ih =>
    rw [List.foldl_cons, ih]
    by_cases same : j = k
    · subst same
      rw [lay_without_self, List.filter_cons_of_neg (by simp)]
    · rw [lay_without same, List.filter_cons_of_pos (by simpa using same), List.foldl_cons]

end AppRecord

namespace Roster
variable {f : AppRecord → AppRecord} {k : Overlay}

theorem map_without (comm : ∀ r, (f r).without k = f (r.without k)) (apps : Roster) :
    (apps.map f).map (·.without k) = (apps.map (·.without k)).map f := by
  rw [List.map_map, List.map_map]
  exact List.map_congr_left fun r _ => comm r

theorem map_without_self (kept : ∀ r, (f r).without k = r.without k) (apps : Roster) :
    (apps.map f).map (·.without k) = apps.map (·.without k) := by
  rw [List.map_map]
  exact List.map_congr_left fun r _ => kept r

theorem insert_map {g : AppRecord → AppRecord} (keeps : ∀ r, (g r).app = r.app) (r : AppRecord) (apps : Roster) :
    (apps.insert r).map g = Roster.insert (g r) (apps.map g) := by
  induction apps with
  | nil => rfl
  | cons x apps ih =>
    rw [insert, List.map_cons, insert, keeps, keeps]
    split
    · rfl
    · rw [List.map_cons, ih]

end Roster

/-! ### Calls beside an overlay -/

/-- An application comes or goes, resumes or streams, or another global overlay starts or stops. -/
inductive Call.IsBeside (k : Overlay) : Call → Prop
  | register (p : Profile) (l : Level) : IsBeside k (.register p l)
  | registerDefault (p : Profile) : IsBeside k (.registerDefault p)
  | unregister (app : AppId) : IsBeside k (.unregister app)
  | setResuming (app : AppId) (on : Bool) : IsBeside k (.setResuming app on)
  | streamingStarted (app : AppId) : IsBeside k (.event (.streamingStarted app))
  | streamingStopped (app : AppId) : IsBeside k (.event (.streamingStopped app))
  | started {e : Event} {j : Overlay} (other : j ≠ k) (starts : e.starts? = some j) : IsBeside k (.event e)
  | stopped {e : Event} {j : Overlay} (other : j ≠ k) (stops : e.stops? = some j) : IsBeside k (.event e)

/-- A call that asks for no regular status, so nothing is put off and the HMI is asked for nothing. -/
def Call.IsModest (call : Call) : Prop := call.drawsId = false ∧ ∀ apps, call.wish? apps = none

theorem Event.isModest_of_starts {e : Event} {k : Overlay} (h : e.starts? = some k) : Call.IsModest (.event e) := by
  cases e <;> first | exact ⟨rfl, fun _ => rfl⟩ | cases h

theorem Event.isModest_of_stops {e : Event} {k : Overlay} (h : e.stops? = some k) : Call.IsModest (.event e) := by
  cases e <;> first | exact ⟨rfl, fun _ => rfl⟩ | cases h

theorem Call.IsBeside.isModest {call : Call} {k : Overlay} (h : call.IsBeside k) : call.IsModest := by
  cases h with
  | started other starts => exact Event.isModest_of_starts starts
  | stopped other stops => exact Event.isModest_of_stops stops
  | _ => exact ⟨rfl, fun _ => rfl⟩

/-! ### Boards -/

namespace Board
variable {b : Board} {j k : Overlay} {c c' : Conditions} {app : AppId} {call : Call}

/-- The board without an overlay, and without what applications were told. -/
def without (k : Overlay) (b : Board) : Board where
  overlays := b.overlays.filter (· ≠ k)
  apps := b.apps.map (·.without k)
  pending := b.pending

theorem cover_overlays (j : Overlay) (b : Board) :
    (b.cover j).overlays = if j ∈ b.overlays then b.overlays else b.overlays ++ [j] := by simp [cover]

theorem without_without (k : Overlay) (b : Board) : (b.without k).without k = b.without k := by
  simp [without, List.filter_filter, AppRecord.without_without]

theorem settle_without (a : Bool) (k : Overlay) (b : Board) : (b.settle a).board.without k = b.without k := by
  have apps := Roster.map_without_self (AppRecord.informed_without a k) b.apps
  rw [without, settle, apps]
  rfl

theorem record?_without (app : AppId) (k : Overlay) (b : Board) :
    (b.without k).apps.record? app = (b.apps.record? app).map (·.without k) :=
  Roster.record?_map (f := (·.without k)) (fun _ => rfl) app b.apps

theorem arbitrate_without (ordered : b.apps.Ordered) (app : AppId) (asked : Status) (k : Overlay) :
    (b.arbitrate app asked).without k = (b.without k).arbitrate app asked := by
  have apps := ordered.arbitrate_map (g := AppRecord.without k) (fun _ => rfl) (fun _ => rfl) (fun _ _ => rfl) app asked
  change (⟨(b.apps.arbitrate app asked).map (AppRecord.without k), _, _⟩ : Board) = _
  rw [← apps]
  rfl

theorem modify_without {f : AppRecord → AppRecord} (comm : ∀ r, (f r).without k = f (r.without k)) (app : AppId)
    (b : Board) : (b.modify app f).without k = (b.without k).modify app f := by
  have apps : (b.apps.modify app f).map (·.without k) = Roster.modify app f (b.apps.map (·.without k)) := by
    refine Roster.map_without (fun r => ?_) b.apps
    by_cases own : r.app = app
    · rw [if_pos own, if_pos (show (r.without k).app = app from own), comm]
    · rw [if_neg own, if_neg (show ¬(r.without k).app = app from own)]
  rw [without, modify, apps]
  rfl

theorem enrol_without (p : Profile) (k : Overlay) (b : Board) : (b.enrol p).without k = (b.without k).enrol p := by
  have apps := Roster.insert_map (g := (·.without k)) (fun _ => rfl)
    (b.overlays.foldl (fun r k => r.lay k) { profile := p }) b.apps
  rw [AppRecord.foldl_lay_without] at apps
  rw [without, enrol, apps]
  rfl

theorem cover_without (ne : j ≠ k) (b : Board) : (b.cover j).without k = (b.without k).cover j := by
  have apps := Roster.map_without (AppRecord.lay_without ne) b.apps
  have overlays : (b.cover j).overlays.filter (· ≠ k) = ((b.without k).cover j).overlays := by
    rw [cover_overlays, Overlay.filter_push ne, cover_overlays]
    rfl
  rw [without, overlays]
  change (⟨(b.apps.map (·.lay j)).map (·.without k), _, _⟩ : Board) = _
  rw [apps]
  rfl

theorem cover_without_self (k : Overlay) (b : Board) : (b.cover k).without k = b.without k := by
  have apps := Roster.map_without_self (AppRecord.lay_without_self k) b.apps
  rw [without, cover_overlays, Overlay.filter_push_self]
  change (⟨(b.apps.map (·.lay k)).map (·.without k), _, _⟩ : Board) = _
  rw [apps]
  rfl

theorem uncover_without (j k : Overlay) (b : Board) : (b.uncover j).without k = (b.without k).uncover j := by
  have apps := Roster.map_without (AppRecord.lift_without j k) b.apps
  rw [without, uncover, apps, List.filter_comm]
  rfl

theorem uncover_without_self (k : Overlay) (b : Board) : (b.uncover k).without k = b.without k := by
  have apps := Roster.map_without_self (AppRecord.lift_without_self k) b.apps
  rw [without, uncover, apps, List.filter_filter]
  simp [without]

theorem drop_without (f : Fault) (k : Overlay) (b : Board) :
    (b.drop f).board.without k = ((b.without k).drop f).board.without k := (without_without k b).symm

theorem register_without (ordered : b.apps.Ordered) (p : Profile) (l : Level) :
    (b.register c p l).board.without k = ((b.without k).register c' p l).board.without k := by
  have found := record?_without p.app k b
  cases known : b.apps.record? p.app with
  | some r =>
    rw [known] at found
    rw [register_of_taken (by rw [known]; rfl), register_of_taken (by rw [found]; rfl)]
    exact drop_without _ k b
  | none =>
    rw [known] at found
    cases flaw : (p.capabilities.statusAt l .main).flaw? with
    | some axis =>
      rw [register_of_flaw known flaw, register_of_flaw found flaw]
      exact drop_without _ k b
    | none =>
      rw [register_of_fresh known flaw, register_of_fresh found flaw, settle_without, settle_without,
        ← enrol_without, ← arbitrate_without (ordered_enrol ordered known), without_without]

theorem unregister_without (app : AppId) (k : Overlay) (b : Board) :
    (b.unregister app).board.without k = ((b.without k).unregister app).board.without k := by
  have found := record?_without app k b
  cases known : b.apps.record? app with
  | none =>
    rw [known] at found
    rw [unregister, known, unregister, found]
    exact drop_without _ k b
  | some r =>
    rw [known] at found
    rw [unregister, known, unregister, found]
    have apps : (b.apps.remove app).map (·.without k) = Roster.remove app (b.apps.map (·.without k)) := by
      rw [Roster.remove, Roster.remove, List.filter_map]
      rfl
    have left : (⟨b.apps.remove app, b.overlays, b.pending.removeApp app⟩ : Board).without k =
        ⟨Roster.remove app (b.without k).apps, (b.without k).overlays, (b.without k).pending.removeApp app⟩ := by
      rw [without, apps]
      rfl
    change (⟨b.apps.remove app, b.overlays, b.pending.removeApp app⟩ : Board).without k = without k
      ⟨Roster.remove app (b.without k).apps, (b.without k).overlays, (b.without k).pending.removeApp app⟩
    rw [← left, without_without]

theorem modify_without_without {f : AppRecord → AppRecord} (comm : ∀ r, (f r).without k = f (r.without k)) (app : AppId)
    (b : Board) : (b.modify app f).without k = ((b.without k).modify app f).without k := by
  rw [← modify_without comm, without_without]

theorem setResuming_without (app : AppId) (on : Bool) (k : Overlay) (b : Board) :
    (b.setResuming app on).board.without k = ((b.without k).setResuming app on).board.without k := by
  have found := record?_without app k b
  cases known : b.apps.record? app with
  | none =>
    rw [known] at found
    rw [setResuming, known, setResuming, found]
    exact drop_without _ k b
  | some r =>
    rw [known] at found
    rw [setResuming, known, setResuming, found]
    exact modify_without_without (f := AppRecord.withResuming on) (fun _ => rfl) app b

theorem startStreaming_without (ne : ∀ c : Capabilities, c.streamingOverlay ≠ k) (app : AppId) :
    (b.startStreaming c app).board.without k = ((b.without k).startStreaming c' app).board.without k := by
  have found := record?_without app k b
  cases known : b.apps.record? app with
  | none =>
    rw [known] at found
    rw [startStreaming, known, startStreaming, found]
    exact drop_without _ k b
  | some r =>
    rw [known] at found
    rw [startStreaming, known, startStreaming, found]
    change (settle _ _).board.without k = (settle _ _).board.without k
    rw [settle_without, settle_without]
    exact modify_without_without (AppRecord.lay_without (ne _)) app b

theorem idle_without (idle : b.apps.Idle) (k : Overlay) : (b.without k).apps.Idle :=
  Roster.Idle.map (f := (·.without k)) idle fun _ => rfl

theorem idle_uncover (idle : b.apps.Idle) (j : Overlay) : (b.uncover j).apps.Idle := idle.map fun _ => rfl

theorem promote_of_idle (idle : b.apps.Idle) : b.promote = b := promote_of_prompt fun _ => idle

theorem stopStreaming_without (idle : b.apps.Idle) (app : AppId) :
    (b.stopStreaming c app).board.without k = ((b.without k).stopStreaming c' app).board.without k := by
  have found := record?_without app k b
  cases known : b.apps.record? app with
  | none =>
    rw [known] at found
    rw [stopStreaming, known, stopStreaming, found]
    exact drop_without _ k b
  | some r =>
    rw [known] at found
    rw [stopStreaming, known, stopStreaming, found]
    have lifted : ∀ b : Board, b.apps.Idle → ∀ j, (b.modify app (·.lift j)).apps.Idle := fun b idle j =>
      idle.modify fun _ => rfl
    dsimp only [Option.map_some]
    rw [conclude_tryPromote, conclude_tryPromote, settle_without, settle_without, promote_of_idle (lifted b idle _),
      promote_of_idle (lifted _ (idle_without idle k) _)]
    exact modify_without_without (AppRecord.lift_without _ k) app b

theorem startOverlay_without (ne : j ≠ k) :
    (b.startOverlay c j).board.without k = ((b.without k).startOverlay c' j).board.without k := by
  change ((b.cover j).settle _).board.without k = (((b.without k).cover j).settle _).board.without k
  rw [settle_without, settle_without, ← cover_without ne, without_without]

theorem stopOverlay_without (idle : b.apps.Idle) (j k : Overlay) :
    (b.stopOverlay c j).board.without k = ((b.without k).stopOverlay c' j).board.without k := by
  rw [stopOverlay_eq, stopOverlay_eq, settle_without, settle_without, promote_of_idle (idle_uncover idle j),
    promote_of_idle (idle_uncover (idle_without idle k) j), ← uncover_without, without_without]

/-- What a call beside an overlay comes to does not depend on the overlay. -/
theorem perform_without (ordered : b.apps.Ordered) (idle : b.apps.Idle)
    (level : c'.policy.entryLevel = c.policy.entryLevel) (isGlobal : k.isGlobal = true) (beside : call.IsBeside k) :
    (b.perform c none call).board.without k = ((b.without k).perform c' none call).board.without k := by
  -- What an application streams under is never global, so it may come and go freely.
  have ne : ∀ c : Capabilities, c.streamingOverlay ≠ k := fun c same => by
    rw [← same, c.streamingOverlay_isGlobal] at isGlobal
    cases isGlobal
  cases beside with
  | register p l => exact register_without ordered p l
  | registerDefault p =>
    change _ = ((b.without k).register c' p c'.policy.entryLevel).board.without k
    rw [level]
    exact register_without ordered p _
  | unregister app => exact unregister_without app k b
  | setResuming app on => exact setResuming_without app on k b
  | streamingStarted app => exact startStreaming_without ne app
  | streamingStopped app => exact stopStreaming_without idle app
  | started other starts =>
    simp only [perform, handle_of_starts starts]
    exact startOverlay_without other
  | @stopped _ j other stops =>
    simp only [perform, handle_of_stops stops]
    exact stopOverlay_without idle j k

theorem notMem_perform (off : k ∉ b.overlays) (beside : call.IsBeside k) :
    k ∉ (b.perform c none call).board.overlays := by
  have registered : ∀ p l, (b.register c p l).board.overlays = b.overlays := by
    intro p l
    rcases register_effect c p l b with ⟨f, -, e⟩ | ⟨n, -, e⟩
    · rw [e]
      rfl
    · generalize b.register c p l = t at e ⊢
      cases e with
      | registered => rfl
  cases beside with
  | register p l => exact registered p l ▸ off
  | registerDefault p => exact registered p c.policy.entryLevel ▸ off
  | unregister app =>
    simp only [perform, unregister]
    split <;> exact off
  | setResuming app on =>
    simp only [perform, setResuming]
    split <;> exact off
  | streamingStarted app =>
    simp only [perform, handle, startStreaming]
    split <;> exact off
  | streamingStopped app =>
    simp only [perform, handle, stopStreaming]
    split
    · exact off
    · rw [conclude_tryPromote]
      change k ∉ (promote _).overlays
      rw [promote_overlays]
      exact off
  | @started _ j other starts =>
    simp only [perform, handle_of_starts starts]
    change k ∉ (b.cover j).overlays
    rw [cover_overlays]
    split
    · exact off
    · simp [off, other.symm]
  | @stopped _ j other stops =>
    simp only [perform, handle_of_stops stops, stopOverlay_eq]
    change k ∉ (promote _).overlays
    rw [promote_overlays]
    exact fun on => off (List.mem_filter.mp on).1

theorem idle_perform (ordered : b.apps.Ordered) (idle : b.apps.Idle) (modest : call.IsModest) :
    (b.perform c none call).board.apps.Idle := by
  have carried : (b.perform c none call).reply ≠ .postponed := fun reply => by
    obtain ⟨r, asked, wish, -, -⟩ := (perform_replied c none call b).of_postponed reply
    rw [modest.2] at wish
    cases wish
  intro s hs
  rcases (perform_effect c none call b).nothingNew ordered carried s hs with none | ⟨r, hr, -, same⟩
  · exact none
  · exact same.symm.trans (idle r hr)

/-- Where the overlay is off, taking it away takes nothing away. -/
theorem Layered.without_of_notMem (h : b.Layered) (isGlobal : k.isGlobal = true) (off : k ∉ b.overlays) :
    b.without k = { b with apps := b.apps.map AppRecord.untold } := by
  have apps : b.apps.map (·.without k) = b.apps.map AppRecord.untold := by
    refine List.map_congr_left fun r hr => ?_
    have bare : k ∉ r.overlays := fun on => off (((h.apps r hr).mem_iff isGlobal).mpr on)
    rw [AppRecord.without, Overlay.filter_ne_of_notMem bare]
    rfl
  rw [without, Overlay.filter_ne_of_notMem off, apps]

end Board

/-! ### Sessions -/

/-- A command that looks at something or concerns the host, but not its policy. -/
def Command.LooksOn : Command → Prop
  | .call _ | .expire | .setPolicy _ => False
  | _ => True

theorem Command.LooksOn.isAside {c : Command} (h : c.LooksOn) : c.IsAside := by
  cases c <;> first | exact trivial | cases h

namespace Session
variable {s t : Session} {k : Overlay} {call : Call} {calls : List Call}

def callAll (calls : List Call) (s : Session) : Session := calls.foldl (fun s call => (s.run (.call call)).1) s

theorem Step.policy (hs : Step Command.LooksOn s t) : t.policy = s.policy := by
  cases hs with
  | enter c looksOn s =>
    cases c with
    | call c => cases looksOn
    | expire => cases looksOn
    | setPolicy p => cases looksOn
    | _ => rfl
  | _ => rfl

theorem Steps.policy (hs : Steps Command.LooksOn s t) : t.policy = s.policy := by
  induction hs with
  | refl => rfl
  | tail _ hs ih => exact hs.policy.trans ih

/-- Between two commands, with a host that looks on, and nothing put off. -/
structure Calm (s : Session) : Prop where
  reachable : s.Reachable
  rest : s.outbox = {}
  looksOn : Reacts Command.LooksOn s.host.reactions
  idle : s.board.apps.Idle

namespace Calm

theorem aside (h : s.Calm) : Reacts Command.IsAside s.host.reactions := fun r hr c hc => (h.looksOn r hr c hc).isAside

theorem board (h : s.Calm) (modest : call.IsModest) :
    (s.run (.call call)).1.board = (s.board.perform s.conditions none call).board := by
  rw [run_call_board_of_undrawn h.rest h.aside modest.1, turn_of_undrawn modest.1]

theorem policy (h : s.Calm) (call : Call) : (s.run (.call call)).1.policy = s.policy :=
  (flush_steps (h.looksOn.enter (.call call))).1.policy.trans (enter_call_policy call s.opened)

theorem run (h : s.Calm) (modest : call.IsModest) : (s.run (.call call)).1.Calm where
  reachable := h.reachable.run _
  rest := run_outbox (by rw [h.rest]) _
  looksOn := h.looksOn.run _
  idle := by
    rw [h.board modest]
    exact Board.idle_perform h.reachable.board.ordered h.idle modest

end Calm

/-- Two sessions that differ by an overlay, and by what applications were told. -/
structure Alike (k : Overlay) (s t : Session) : Prop where
  left : s.Calm
  right : t.Calm
  policy : t.policy = s.policy
  board : t.board.without k = s.board.without k

theorem Alike.run (h : Alike k s t) (isGlobal : k.isGlobal = true) (beside : call.IsBeside k) :
    Alike k (s.run (.call call)).1 (t.run (.call call)).1 where
  left := h.left.run beside.isModest
  right := h.right.run beside.isModest
  policy := by rw [h.left.policy, h.right.policy, h.policy]
  board := by
    have level : s.policy.entryLevel = t.policy.entryLevel := by rw [h.policy]
    rw [h.left.board beside.isModest, h.right.board beside.isModest]
    calc (t.board.perform t.conditions none call).board.without k
      _ = ((t.board.without k).perform s.conditions none call).board.without k :=
        Board.perform_without h.right.reachable.board.ordered h.right.idle level isGlobal beside
      _ = ((s.board.without k).perform s.conditions none call).board.without k := by rw [h.board]
      _ = (s.board.perform s.conditions none call).board.without k :=
        (Board.perform_without h.left.reachable.board.ordered h.left.idle rfl isGlobal beside).symm

theorem Alike.runs (h : Alike k s t) (isGlobal : k.isGlobal = true) (beside : ∀ call ∈ calls, call.IsBeside k) :
    Alike k (s.callAll calls) (t.callAll calls) := by
  induction calls generalizing s t with
  | nil => exact h
  | cons call calls ih =>
    exact ih (h.run isGlobal (beside call List.mem_cons_self)) fun c hc => beside c (List.mem_cons_of_mem _ hc)

theorem Calm.notMem (h : s.Calm) (off : k ∉ s.board.overlays) (beside : ∀ call ∈ calls, call.IsBeside k) :
    (s.callAll calls).Calm ∧ k ∉ (s.callAll calls).board.overlays := by
  induction calls generalizing s with
  | nil => exact ⟨h, off⟩
  | cons call calls ih =>
    have first := beside call List.mem_cons_self
    refine ih (h.run first.isModest) ?_ fun c hc => beside c (List.mem_cons_of_mem _ hc)
    rw [h.board first.isModest]
    exact Board.notMem_perform off first

theorem Alike.start (h : s.Calm) {start : Event} (starts : start.starts? = some k) :
    Alike k s (s.run (.call (.event start))).1 where
  left := h
  right := h.run (Event.isModest_of_starts starts)
  policy := h.policy _
  board := by
    rw [h.board (Event.isModest_of_starts starts)]
    simp only [Board.perform, Board.handle_of_starts starts]
    exact (Board.settle_without _ k _).trans (Board.cover_without_self k s.board)

theorem Alike.stop (h : Alike k s t) {stop : Event} (stops : stop.stops? = some k) :
    Alike k s (t.run (.call (.event stop))).1 ∧ k ∉ (t.run (.call (.event stop))).1.board.overlays := by
  have modest := Event.isModest_of_stops stops
  have board : (t.run (.call (.event stop))).1.board =
      ((t.board.uncover k).settle t.conditions.policy.attenuates).board := by
    rw [h.right.board modest]
    simp only [Board.perform, Board.handle_of_stops stops, Board.stopOverlay_eq]
    rw [Board.promote_of_idle (Board.idle_uncover h.right.idle k)]
  refine ⟨⟨h.left, h.right.run modest, (h.right.policy _).trans h.policy, ?_⟩, ?_⟩
  · rw [board, Board.settle_without, Board.uncover_without_self, h.board]
  · rw [board]
    exact Board.notMem_uncover_overlays k t.board

/-- What is shown of an application does not depend on what it was told. -/
theorem view_eq_untold (app : AppId) (s : Session) :
    s.view app = (Roster.record? app (s.board.apps.map AppRecord.untold)).elim {} fun r =>
      { current? := some (r.effective s.policy.attenuates)
        regular? := some r.regular
        postponed? := r.postponed?
        overlays := r.overlays } := by
  rw [Roster.record?_map (f := AppRecord.untold) fun _ => rfl, view]
  cases s.board.apps.record? app <;> rfl

/-- With a host that looks on, and nothing put off: a global overlay that is off starts, whatever comes, goes,
    resumes, streams, starts and stops beside it, and it stops again. Then the board is the one that it would be
    without the overlay, but for what applications were told, and every application is presented the same. -/
theorem overlay_transparent (h : s.Reachable) (rest : s.outbox = {})
    (looksOn : Reacts Command.LooksOn s.host.reactions) (idle : ∀ r ∈ s.board.apps, r.postponed? = none)
    (off : k ∉ s.board.overlays) {start stop : Event} (starts : start.starts? = some k) (stops : stop.stops? = some k)
    (beside : ∀ call ∈ calls, call.IsBeside k) :
    let around := s.callAll (.event start :: calls ++ [.event stop])
    let alone := s.callAll calls
    around.board.apps.map AppRecord.untold = alone.board.apps.map AppRecord.untold ∧
      around.board.overlays = alone.board.overlays ∧ around.board.pending = alone.board.pending ∧
      ∀ app, around.view app = alone.view app := by
  intro around alone
  have isGlobal := Event.isGlobal_of_starts starts
  have calm : s.Calm := ⟨h, rest, looksOn, idle⟩
  obtain ⟨alike, gone⟩ := ((Alike.start calm starts).runs isGlobal beside).stop stops
  have never : k ∉ alone.board.overlays := (calm.notMem off beside).2
  have steps : ((((s.run (.call (.event start))).1.callAll calls).run (.call (.event stop))).1) = around := by
    simp only [around, callAll, List.foldl_append, List.foldl_cons, List.foldl_nil]
  rw [steps] at alike gone
  -- The overlay is off in both, so all that was left out of them is what applications were told.
  have board : ({ around.board with apps := around.board.apps.map AppRecord.untold } : Board) =
      { alone.board with apps := alone.board.apps.map AppRecord.untold } := by
    rw [← alike.right.reachable.board.layered.without_of_notMem isGlobal gone, alike.board,
      alike.left.reachable.board.layered.without_of_notMem isGlobal never]
  obtain ⟨apps, overlays, pending⟩ := Board.mk.inj board
  refine ⟨apps, overlays, pending, fun app => ?_⟩
  rw [view_eq_untold, view_eq_untold, apps, alike.policy]

/-- During a phone call a voice session begins, speech comes on top of it, an application registers under both and
    streams, and the phone call ends below them: the voice session lies in the middle and is taken from there. -/
theorem overlay_transparent_in_the_middle :
    let s := ({} : Session).callAll
      [.register ⟨⟨2⟩, ⟨12⟩, { media := true }⟩ .full, .event (.signalled .phoneCall true)]
    let calls : List Call := [.event .speechStarted, .register ⟨⟨1⟩, ⟨11⟩, { navigation := true }⟩ .full,
      .event (.streamingStarted ⟨1⟩), .setResuming ⟨2⟩ true, .event (.signalled .phoneCall false)]
    let around := s.callAll (.event .voiceStarted :: calls ++ [.event .voiceStopped])
    let alone := s.callAll calls
    (s.callAll (.event .voiceStarted :: calls)).board.apps.map AppRecord.overlays =
        [[.voiceSession, .speech, .naviStreaming], [.voiceSession, .speech]] ∧
      around.board.apps.map AppRecord.untold = alone.board.apps.map AppRecord.untold ∧
      around.board.overlays = alone.board.overlays ∧ around.board.pending = alone.board.pending ∧
      ∀ app, around.view app = alone.view app := by
  intro s calls around alone
  have reachable : s.Reachable := (Session.Reachable.fresh {} {}).runs
    [.call (.register ⟨⟨2⟩, ⟨12⟩, { media := true }⟩ .full), .call (.event (.signalled .phoneCall true))]
  have rest : s.outbox = {} := by cbv
  have looksOn : Reacts Command.LooksOn s.host.reactions := .of_eq_nil (by cbv)
  have idle : ∀ r ∈ s.board.apps, r.postponed? = none := by
    have slots : s.board.apps.map AppRecord.postponed? = [none] := by cbv
    intro r hr
    exact List.mem_singleton.mp (slots ▸ List.mem_map_of_mem hr)
  have off : .voiceSession ∉ s.board.overlays := by
    have overlays : s.board.overlays = [.phoneCall] := by cbv
    simp [overlays]
  have beside : ∀ call ∈ calls, call.IsBeside .voiceSession := by
    have speech : Call.IsBeside .voiceSession (.event .speechStarted) :=
      .started (show Overlay.speech ≠ .voiceSession by decide) rfl
    have phoneCall : Call.IsBeside .voiceSession (.event (.signalled .phoneCall false)) :=
      .stopped (show Overlay.phoneCall ≠ .voiceSession by decide) rfl
    simp only [calls, List.forall_mem_cons, List.not_mem_nil, false_imp_iff, implies_true, and_true]
    exact ⟨speech, .register _ _, .streamingStarted _, .setResuming _ _, phoneCall⟩
  have middle : (s.callAll (.event .voiceStarted :: calls)).board.apps.map AppRecord.overlays =
      [[.voiceSession, .speech, .naviStreaming], [.voiceSession, .speech]] := by
    subst s calls
    cbv
  exact ⟨middle, overlay_transparent reachable rest looksOn idle off
    (show Event.starts? .voiceStarted = some .voiceSession from rfl)
    (show Event.stops? .voiceStopped = some .voiceSession from rfl) beside⟩

end Session

end HeadUnit
