import HeadUnit.Proofs.History
import HeadUnit.Proofs.Postponed
import HeadUnit.Proofs.Replies

/-! Which of two requests has the last word. Over the turns of a session each request that was put off can be
    followed: it waits in the slot of its application until another takes its place, until the application
    leaves, or until a promotion carries it out. A request that is carried out at once while nothing blocks
    is never undone by an older one, as none is left. One that the resumption window lets through a blocking
    overlay is: the older request goes on waiting, and is carried out when the overlay ends. -/

namespace HeadUnit

/-! ### Histories -/

/-- The request that waits for an application. -/
def Roster.postponed? (app : AppId) (apps : Roster) : Option Status := (apps.record? app).bind (·.postponed?)

namespace History

/-- The turn whose request waits for an application before turn `j`: the last one that was answered as
    postponed, unless the slot was emptied since. -/
def waiting? (app : AppId) (turns : History) : Nat → Option Nat
  | 0 => none
  | j + 1 =>
    match turns[j]? with
    | none => none
    | some (call, t) =>
      if t.reply = .postponed ∧ call.asks? = some app then some j
      else if (t.board.apps.postponed? app).isSome then waiting? app turns j
      else none

/-- The turn whose request for an application is carried out by turn `j`: it waited before, and afterwards
    the slot of the application, which is still there, is empty. -/
def carriedOut? (app : AppId) (turns : History) (j : Nat) : Option Nat :=
  match turns[j]? with
  | none => none
  | some (_, t) => if (t.board.apps.record? app).any (·.postponed? = none) then waiting? app turns j else none

variable {turns : History} {app : AppId} {call : Call} {t : Turn} {i j m : Nat}

theorem waiting?_succ (h : turns[j]? = some (call, t)) : turns.waiting? app (j + 1) =
    if t.reply = .postponed ∧ call.asks? = some app then some j
    else if (t.board.apps.postponed? app).isSome then turns.waiting? app j else none := by
  rw [waiting?, h]

/-- What waits after a turn was put off by this turn, or was waiting already. -/
theorem waiting?_cases (h : turns.waiting? app (j + 1) = some i) :
    (i = j ∧ ∃ call t, turns[i]? = some (call, t) ∧ t.reply = .postponed ∧ call.asks? = some app) ∨
      turns.waiting? app j = some i := by
  cases taken : turns[j]? with
  | none =>
    rw [waiting?, taken] at h
    cases h
  | some x =>
    rw [waiting?_succ taken] at h
    split at h
    · next putOff =>
      obtain rfl := Option.some.inj h
      exact Or.inl ⟨rfl, x.1, x.2, taken, putOff⟩
    · split at h
      · exact Or.inr h
      · cases h

theorem putOff_of_waiting? (h : turns.waiting? app j = some i) :
    ∃ call t, turns[i]? = some (call, t) ∧ t.reply = .postponed ∧ call.asks? = some app := by
  induction j with
  | zero => cases h
  | succ j ih =>
    rcases waiting?_cases h with ⟨-, putOff⟩ | before
    · exact putOff
    · exact ih before

/-- What waits in the end was put off in the meantime, or was waiting all along. -/
theorem waiting?_since (later : m < j) (h : turns.waiting? app j = some i) :
    m < i ∨ turns.waiting? app (m + 1) = some i := by
  induction j, (later : m + 1 ≤ j) using Nat.le_induction with
  | base => exact Or.inr h
  | succ j hj ih =>
    rcases waiting?_cases h with ⟨rfl, -⟩ | before
    · exact Or.inl hj
    · exact ih before

theorem waiting?_of_carriedOut? (h : turns.carriedOut? app j = some i) : turns.waiting? app j = some i := by
  unfold carriedOut? at h
  split at h
  · cases h
  · split at h
    · exact h
    · cases h

end History

/-! ### What a turn does to the slots -/

namespace Roster
variable {apps later : Roster}

/-- Whatever waits later waited before. -/
def NothingNew (apps later : Roster) : Prop :=
  ∀ s ∈ later, s.postponed? = none ∨ ∃ r ∈ apps, r.app = s.app ∧ r.postponed? = s.postponed?

namespace NothingNew

theorem refl (apps : Roster) : apps.NothingNew apps := fun s hs => Or.inr ⟨s, hs, rfl, rfl⟩

theorem map (h : apps.NothingNew later) {f : AppRecord → AppRecord} (app : ∀ r, (f r).app = r.app)
    (slot : ∀ r, (f r).postponed? = none ∨ (f r).postponed? = r.postponed?) : apps.NothingNew (later.map f) := by
  intro s hs
  obtain ⟨s₀, hs₀, rfl⟩ := List.mem_map.mp hs
  rcases slot s₀ with none | same
  · exact Or.inl none
  · rw [same, app]
    exact h s₀ hs₀

theorem modify (h : apps.NothingNew later) {app : AppId} {f : AppRecord → AppRecord} (keeps : ∀ r, (f r).app = r.app)
    (slot : ∀ r, (f r).postponed? = r.postponed?) : apps.NothingNew (later.modify app f) :=
  h.map (modify_keeps app keeps) fun r => Or.inr (modify_keeps app slot r)

theorem arbitrate (h : apps.NothingNew later) (ordered : later.Ordered) (target : AppId) (asked : Status) :
    apps.NothingNew (later.arbitrate target asked) :=
  ordered.arbitrate_induct h
    (fun _ _ => h.map (fun _ => AppRecord.contend_app) fun _ => Or.inr AppRecord.contend_postponed?) target

/-- The slot of an application is empty or as it was. -/
theorem postponed? (h : apps.NothingNew later) (ordered : apps.Ordered) (app : AppId) :
    later.postponed? app = none ∨ later.postponed? app = apps.postponed? app := by
  rw [Roster.postponed?]
  cases found : later.record? app with
  | none => exact Or.inl rfl
  | some s =>
    obtain ⟨mem, rfl⟩ := record?_mem found
    rcases h s mem with none | ⟨r, hr, same, slot⟩
    · exact Or.inl none
    · refine Or.inr ?_
      rw [Roster.postponed?, ordered.record?_eq_some_iff.mpr ⟨hr, same⟩]
      exact slot.symm

end NothingNew

theorem postponed?_map {f : AppRecord → AppRecord} (keeps : ∀ r, (f r).app = r.app)
    (slot : ∀ r, (f r).postponed? = r.postponed?) {app : AppId} :
    Roster.postponed? app (apps.map f) = apps.postponed? app := by
  rw [postponed?, record?_map keeps, postponed?]
  cases apps.record? app with
  | none => rfl
  | some r => exact slot r

end Roster

namespace Board
variable {b : Board} {apps : Roster}

theorem nothingNew_settle (h : apps.NothingNew b.apps) (a : Bool) : apps.NothingNew (b.settle a).board.apps :=
  h.map (AppRecord.informed_app a) fun r => Or.inr (AppRecord.informed_postponed? a r)

theorem nothingNew_promote (h : apps.NothingNew b.apps) (ordered : b.apps.Ordered) :
    apps.NothingNew b.promote.apps :=
  promote_induct_ordered (P := fun b => apps.NothingNew b.apps) ordered (fun _ => h)
    (h.map (fun _ => rfl) fun _ => Or.inl rfl) fun ordered' h' _ _ => h'.arbitrate ordered' _ _

/-- Only a turn that puts a request off lets anything new wait. -/
theorem Effect.nothingNew {c : Conditions} {p : Option Profile} {t : Turn} (ordered : b.apps.Ordered)
    (e : Effect c b p t) (carried : t.reply ≠ .postponed) : b.apps.NothingNew t.board.apps := by
  have same := Roster.NothingNew.refl b.apps
  cases e with
  | refused f => exact same
  | silent => exact same
  | registered p l fresh valid =>
    have enrolled : b.apps.NothingNew (b.enrol p).apps := by
      intro s hs
      rcases Roster.mem_insert.mp hs with rfl | hs
      · exact Or.inl (by rw [AppRecord.foldl_lay_eq])
      · exact same s hs
    exact nothingNew_settle (enrolled.arbitrate (ordered_enrol ordered fresh) _ _) _
  | unregistered known => exact fun s hs => same s (List.mem_filter.mp hs).1
  | resuming known on => exact same.modify (fun _ => rfl) fun _ => rfl
  | postponed known valid blocked waits => exact absurd rfl carried
  | requested known valid free =>
    rw [requestNow_board known]
    exact nothingNew_settle (same.arbitrate ordered _ _) _
  | awaited known valid free id => exact same
  | unanswered id f => exact same
  | answered found owner => exact nothingNew_settle (Roster.NothingNew.arbitrate same ordered _ _) _
  | @started k isGlobal =>
    exact nothingNew_settle (b := b.cover k)
      (same.map (AppRecord.lay_app k) fun r => Or.inr (AppRecord.lay_postponed? k r)) _
  | @stopped k isGlobal =>
    exact nothingNew_settle (nothingNew_promote (b := b.uncover k)
      (same.map (AppRecord.lift_app k) fun _ => Or.inr rfl) (ordered_uncover ordered k)) _
  | streaming known =>
    exact nothingNew_settle (b := b.modify _ _) (same.modify (AppRecord.lay_app _) (AppRecord.lay_postponed? _)) _
  | streamed known =>
    exact nothingNew_settle (nothingNew_promote (b := b.modify _ _)
      (same.modify (AppRecord.lift_app _) fun _ => rfl) (ordered_modify ordered (AppRecord.lift_app _))) _

variable {c : Conditions} {id : Option CorrelationId} {app : AppId} {call : Call}

/-- A turn has put a request of an application off: it waits in the slot of the application. -/
def PutOff (app : AppId) (b : Board) (t : Turn) : Prop :=
  (b.apps.record? app).isSome = true ∧ ∃ asked, t.board = b.modify app (·.postpone asked)

/-- A call that is answered as postponed is about the regular status of an application. -/
theorem putOff_of_perform (h : (b.perform c id call).reply = .postponed) :
    ∃ app, call.asks? = some app ∧ PutOff app b (b.perform c id call) := by
  obtain ⟨r, asked, wish, known, e⟩ := (perform_replied c id call b).of_postponed h
  exact ⟨r.app, Call.asks?_of_wish? wish, by rw [known]; rfl, asked, congrArg Turn.board e⟩

namespace PutOff
variable {t : Turn}

theorem record? (h : PutOff app b t) (other : AppId) : ∃ asked, t.board.apps.record? other =
    (b.apps.record? other).map fun r => if r.app = app then r.postpone asked else r := by
  obtain ⟨-, asked, board⟩ := h
  exact ⟨asked, by rw [board]; exact Roster.record?_modify fun _ => rfl⟩

theorem waits (h : PutOff app b t) : (t.board.apps.postponed? app).isSome = true := by
  obtain ⟨r, known⟩ := Option.isSome_iff_exists.mp h.1
  obtain ⟨asked, found⟩ := h.record? app
  rw [Roster.postponed?, found, known, Option.map_some, Option.bind_some, if_pos (Roster.record?_mem known).2]
  rfl

theorem others (h : PutOff app b t) {other : AppId} (ne : other ≠ app) :
    t.board.apps.postponed? other = b.apps.postponed? other := by
  obtain ⟨asked, found⟩ := h.record? other
  rw [Roster.postponed?, Roster.postponed?, found]
  cases known : b.apps.record? other with
  | none => rfl
  | some r =>
    have ne' : r.app ≠ app := fun same => ne ((Roster.record?_mem known).2.symm.trans same)
    rw [Option.map_some, if_neg ne']

end PutOff

/-- A request that is applied is carried out at once, as nothing blocks or the application is resuming. -/
theorem requestNow_of_request {asked : Status} {n : Nat} (h : (b.request c app asked id).reply = .applied n) :
    ∃ r, b.apps.record? app = some r ∧ (b.isBlocked = false ∨ r.resuming = true) ∧
      b.request c app asked id = b.requestNow c r asked := by
  rcases request_cases c app asked id b with ⟨f, -, e⟩ | ⟨r, known, -, ⟨-, -, e⟩ | ⟨free, e | ⟨id', e⟩⟩⟩
  · rw [e] at h
    cases h
  · rw [e] at h
    cases h
  · exact ⟨r, known, free, e⟩
  · rw [e] at h
    cases h

theorem requestNow_of_perform {n : Nat} (asks : call.requests? = some app)
    (h : (b.perform c id call).reply = .applied n) :
    ∃ r asked, b.apps.record? app = some r ∧ (b.isBlocked = false ∨ r.resuming = true) ∧
      b.perform c id call = b.requestNow c r asked := by
  cases call with
  | request app' asked activates =>
    obtain rfl := Option.some.inj asks
    obtain ⟨r, known, free, e⟩ := requestNow_of_request h
    exact ⟨r, asked, known, free, e⟩
  | requestAxes app' l a v x =>
    obtain rfl := Option.some.inj asks
    obtain ⟨r, known, free, e⟩ := requestNow_of_request h
    exact ⟨r, _, known, free, e⟩
  | requestLevel app' l =>
    obtain rfl := Option.some.inj asks
    simp only [perform, requestLevel] at h ⊢
    split at h
    · cases h
    · obtain ⟨r, known, free, e⟩ := requestNow_of_request h
      exact ⟨r, _, known, free, e⟩
  | _ => cases asks

theorem postponed?_requestNow (ordered : b.apps.Ordered) {r : AppRecord} (known : b.apps.record? r.app = some r)
    (asked : Status) (other : AppId) :
    (b.requestNow c r asked).board.apps.postponed? other = b.apps.postponed? other := by
  have arbitrated : (b.apps.arbitrate r.app asked).postponed? other = b.apps.postponed? other :=
    ordered.arbitrate_induct (P := fun apps => apps.postponed? other = b.apps.postponed? other) rfl
      (fun _ _ => Roster.postponed?_map (fun _ => AppRecord.contend_app) (fun _ => AppRecord.contend_postponed?)) _
  rw [requestNow_board known, ← arbitrated]
  exact Roster.postponed?_map (AppRecord.informed_app _) (AppRecord.informed_postponed? _)

end Board

/-! ### What waits -/

namespace History
variable {turns : History} {app : AppId} {call : Call} {t : Turn} {i j m n : Nat}

/-- The slot of an application holds what the request that waits has left there. -/
theorem Played.postponed?_roster (h : turns.Played) (app : AppId) (within : j ≤ turns.length) :
    (turns.roster j).postponed? app =
      (turns.waiting? app j).bind fun i => (turns.roster (i + 1)).postponed? app := by
  induction j with
  | zero => rfl
  | succ j ih =>
    obtain ⟨⟨call, t⟩, taken⟩ : ∃ x, turns[j]? = some x := ⟨_, List.getElem?_eq_getElem within⟩
    obtain ⟨b, c, id, reachable, apps, turn⟩ := h j call t taken
    have before := ih (Nat.le_of_succ_le within)
    rw [← apps] at before
    rw [waiting?_succ taken]
    split
    · rfl
    · next notPutOff =>
      -- The turn has put no request of this application off, so the slot was emptied or left alone.
      have kept : t.board.apps.postponed? app = none ∨ t.board.apps.postponed? app = b.apps.postponed? app := by
        subst turn
        by_cases reply : (b.perform c id call).reply = .postponed
        · obtain ⟨other, asks, putOff⟩ := Board.putOff_of_perform reply
          exact Or.inr (putOff.others fun same => notPutOff ⟨reply, by rw [asks, same]⟩)
        · exact ((Board.perform_effect c id call b).nothingNew reachable.ordered reply).postponed?
            reachable.ordered app
      rw [roster_succ taken]
      split
      · next waits =>
        rcases kept with none | same
        · rw [none] at waits
          cases waits
        · exact same.trans before
      · next empty => simpa using empty

theorem Played.isSome_of_waiting? (h : turns.Played) (within : j ≤ turns.length)
    (waits : turns.waiting? app j = some i) : ((turns.roster j).postponed? app).isSome = true := by
  obtain ⟨call, t, taken, reply, asks⟩ := putOff_of_waiting? waits
  obtain ⟨b, c, id, -, -, rfl⟩ := h i call t taken
  obtain ⟨app', asks', putOff⟩ := Board.putOff_of_perform reply
  obtain rfl : app' = app := Option.some.inj (asks'.symm.trans asks)
  rw [h.postponed?_roster app' within, waits, Option.bind_some, roster_succ taken]
  exact putOff.waits

/-- A request that is applied at once leaves whatever waits alone. -/
theorem Played.waiting?_of_applied (h : turns.Played) (taken : turns[m]? = some (call, t))
    (asks : call.requests? = some app) (applied : t.reply = .applied n) :
    turns.waiting? app (m + 1) = turns.waiting? app m := by
  obtain ⟨b, c, id, reachable, apps, rfl⟩ := h m call t taken
  obtain ⟨r, asked, known, -, turn⟩ := Board.requestNow_of_perform asks applied
  obtain ⟨-, rfl⟩ := Roster.record?_mem known
  have slot : (b.perform c id call).board.apps.postponed? r.app = (turns.roster m).postponed? r.app := by
    rw [turn, Board.postponed?_requestNow reachable.ordered known, apps]
  have notPutOff : ¬((b.perform c id call).reply = .postponed ∧ call.asks? = some r.app) := by
    rintro ⟨reply, -⟩
    rw [applied] at reply
    cases reply
  rw [waiting?_succ taken, if_neg notPutOff, slot]
  split
  · rfl
  · next empty =>
    cases waits : turns.waiting? r.app m with
    | none => rfl
    | some i =>
      have within : m ≤ turns.length := (List.getElem?_eq_some_iff.mp taken).1.le
      exact absurd (h.isSome_of_waiting? within waits) empty

/-- What waits when a request is applied at once waits for a blocking overlay to end, and the request was let
    through by the resumption window. -/
theorem Played.resuming_of_waiting? (h : turns.Played) (taken : turns[m]? = some (call, t))
    (asks : call.requests? = some app) (applied : t.reply = .applied n)
    (waits : turns.waiting? app m = some i) :
    t.board.isBlocked = true ∧ ∃ r, (turns.roster m).record? app = some r ∧ r.resuming = true := by
  obtain ⟨b, c, id, reachable, apps, rfl⟩ := h m call t taken
  obtain ⟨r, asked, known, free, turn⟩ := Board.requestNow_of_perform asks applied
  obtain ⟨-, rfl⟩ := Roster.record?_mem known
  have within : m ≤ turns.length := (List.getElem?_eq_some_iff.mp taken).1.le
  have slot := h.isSome_of_waiting? within waits
  have blocked : b.isBlocked = true := by
    rw [← Bool.not_eq_false]
    intro free
    rw [← apps, Roster.postponed?, known, Option.bind_some,
      reachable.prompt free r (Roster.record?_mem known).1] at slot
    cases slot
  have same : (b.perform c id call).board.isBlocked = b.isBlocked := by
    rw [turn, Board.requestNow_board known]
    rfl
  refine ⟨same.trans blocked, r, by rw [← apps]; exact known, ?_⟩
  rcases free with free | resuming
  · rw [blocked] at free
    cases free
  · exact resuming

end History

/-! ### Sessions -/

namespace Session

/-- What was put off before a request of the same application was applied is carried out after it only if it
    was still waiting for a blocking overlay, and the request was let through by the resumption window: then
    it goes on waiting. -/
theorem newer_request_stands (settings : Settings) (host : Host) (cs : List Command) {turns : History}
    (run : turns = Log.turns (runAll cs { settings, host }).2) {app : AppId} {m n : Nat} {call : Call} {t : Turn}
    (taken : turns[m]? = some (call, t)) (asks : call.requests? = some app) (applied : t.reply = .applied n) :
    turns.waiting? app (m + 1) = turns.waiting? app m ∧
      ∀ j i, m < j → turns.carriedOut? app j = some i →
        m < i ∨ turns.waiting? app m = some i ∧ t.board.isBlocked = true ∧
          ∃ r, (turns.roster m).record? app = some r ∧ r.resuming = true := by
  have played : turns.Played := by
    rw [run]
    exact played_runAll settings host cs
  have stays := played.waiting?_of_applied taken asks applied
  refine ⟨stays, fun j i later carried => ?_⟩
  rcases History.waiting?_since later (History.waiting?_of_carriedOut? carried) with newer | waits
  · exact Or.inl newer
  · rw [stays] at waits
    exact Or.inr ⟨waits, played.resuming_of_waiting? taken asks applied waits⟩

/-- In each of two voice sessions a request is put off, and between them one is applied: only the second is
    carried out after it. -/
theorem newer_request_stands_between_sessions :
    let app : AppId := ⟨1⟩
    let cs : List Command := [.call (.register ⟨app, ⟨11⟩, {}⟩ .absent), .call (.event .voiceStarted),
      .call (.requestLevel app .background), .call (.event .voiceStopped), .call (.requestLevel app .limited),
      .call (.event .voiceStarted), .call (.requestLevel app .background), .call (.event .voiceStopped)]
    let turns := Log.turns (runAll cs {}).2
    (turns.carriedOut? app 3 = some 2 ∧ turns.carriedOut? app 7 = some 6) ∧
      ∀ j i, 4 < j → turns.carriedOut? app j = some i → 4 < i := by
  intro app cs turns
  have first : turns.carriedOut? app 3 = some 2 := by
    subst turns cs app
    cbv
  have last : turns.carriedOut? app 7 = some 6 := by
    subst turns cs app
    cbv
  have between : (turns[4]?.map fun x => (x.1.requests?, x.2.reply, x.2.board.isBlocked)) =
      some (some app, .applied 1, false) := by
    subst turns cs app
    cbv
  obtain ⟨⟨call, t⟩, taken, same⟩ := Option.map_eq_some_iff.mp between
  obtain ⟨asks, applied, free⟩ : call.requests? = some app ∧ t.reply = .applied 1 ∧ t.board.isBlocked = false := by
    simpa using same
  refine ⟨⟨first, last⟩, fun j i later carried => ?_⟩
  rcases (newer_request_stands {} {} cs rfl taken asks applied).2 j i later carried with newer | ⟨-, blocked, -⟩
  · exact newer
  · rw [free] at blocked
    cases blocked

/-- An application that waits for the background opens its resumption window and takes the display; when the
    voice session ends it is sent to the background all the same. -/
theorem newer_request_undone :
    let app : AppId := ⟨1⟩
    let status (l : Level) : Status := ⟨l, .notAudible, .notStreamable, .main, .regular⟩
    let before : List Command := [.call (.register ⟨app, ⟨11⟩, {}⟩ .absent), .call (.event .voiceStarted),
      .call (.request app (status .background) false), .call (.setResuming app true),
      .call (.request app (status .full) false)]
    let cs := before ++ [.call (.event .voiceStopped)]
    let turns := Log.turns (runAll cs {}).2
    (turns[2]?.map fun x => x.2.reply) = some .postponed ∧ (turns[4]?.map fun x => x.2.reply) = some (.applied 1) ∧
      turns.carriedOut? app 5 = some 2 ∧
      ((runAll before {}).1.view app).regular? = some (status .full) ∧
      ((runAll cs {}).1.view app).regular? = some (status .background) := by
  refine ⟨?_, ?_, ?_, ?_, ?_⟩ <;> cbv

end Session

end HeadUnit
