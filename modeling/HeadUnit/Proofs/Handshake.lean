import HeadUnit.Proofs.Anchored
import HeadUnit.Proofs.Unapplied

/-! The activation handshake over a whole run. A request that was answered with a number stands if it could be
    sent, until it is answered, its application leaves, a sweep finds it expired, or its number is given out
    again. What stands is what is pending, so the commands given so far and their answers tell whether a
    successful answer is applied, and what it brings about. -/

namespace HeadUnit

/-! ### Commands and their answers -/

/-- A command, with the session to which it was given. -/
structure Exchange where
  before : Session
  command : Command

namespace Exchange

def response (x : Exchange) : Response := (x.before.run x.command).2

/-- The activation is asked for under the number. -/
structure Asks (id : CorrelationId) (a : Activation) (x : Exchange) : Prop where
  awaits : x.response = .reply (.awaiting id)
  wish : ∃ call, x.command = .call call ∧ call.wish? x.before.board.apps = some (a.app, a.target)
  hmiApp : ∃ r, x.before.board.apps.record? a.app = some r ∧ r.profile.hmiApp = a.hmiApp
  askedAt : a.askedAt = x.before.host.now

/-- Nothing ends the wait of the activation. -/
structure Spares (id : CorrelationId) (a : Activation) (x : Exchange) : Prop where
  unasked : x.response ≠ .reply (.awaiting id)
  unanswered : ∀ answer, x.command ≠ .call (.event (.activationAnswered id answer))
  stays : x.command = .call (.unregister a.app) → ∀ n, x.response ≠ .reply (.applied n)
  unswept : x.command = .expire → a.isExpired x.before.host.now x.before.settings.timeout = false

end Exchange

/-- The last request under the number asked for the activation and could be sent, and nothing has ended the
    wait since. -/
def Standing (past : List Exchange) (id : CorrelationId) (a : Activation) : Prop :=
  ∃ earlier x since, past = earlier ++ x :: since ∧
    x.Asks id a ∧ x.before.host.accepts = true ∧ ∀ y ∈ since, y.Spares id a

section Standing
variable {past : List Exchange} {x : Exchange} {id : CorrelationId} {a : Activation}

theorem not_standing_nil : ¬ Standing [] id a := by
  rintro ⟨earlier, x, since, split, -⟩
  simp at split

theorem standing_concat : Standing (past ++ [x]) id a ↔
    (x.Asks id a ∧ x.before.host.accepts = true) ∨ (Standing past id a ∧ x.Spares id a) := by
  constructor
  · rintro ⟨earlier, y, since, split, asks, sent, spared⟩
    -- The last exchange is the one that asked, or the last of those since.
    rcases List.eq_nil_or_concat since with rfl | ⟨since, z, rfl⟩
    · obtain ⟨-, last⟩ := List.append_inj' split rfl
      cases last
      exact Or.inl ⟨asks, sent⟩
    · rw [List.concat_eq_append, ← List.cons_append, ← List.append_assoc] at split
      obtain ⟨rfl, last⟩ := List.append_inj' split rfl
      cases last
      exact Or.inr ⟨⟨earlier, y, since, rfl, asks, sent, fun w hw => spared w (by simp [hw])⟩, spared x (by simp)⟩
  · rintro (⟨asks, sent⟩ | ⟨⟨earlier, y, since, rfl, asks, sent, spared⟩, last⟩)
    · exact ⟨past, x, [], rfl, asks, sent, fun _ hw => by cases hw⟩
    · refine ⟨earlier, y, since ++ [x], by simp, asks, sent, fun w hw => ?_⟩
      rcases List.mem_append.mp hw with hw | hw
      · exact spared w hw
      · rwa [List.mem_singleton.mp hw]

end Standing

/-! ### What a turn does to a pending activation -/

theorem Pending.filter_eq_self {keep : CorrelationId × Activation → Bool} {p : Pending}
    (all : ∀ row ∈ p.rows, keep row = true) : p.filter keep = p := by
  obtain ⟨rows, distinct⟩ := p
  unfold filter
  congr 1
  exact List.filter_eq_self.mpr all

theorem Pending.find?_entered {number id : CorrelationId} {new a : Activation} (sent : Bool) (p : Pending) :
    (if sent = true then p.insert number new else (p.insert number new).remove number).find? id = some a ↔
      ((number = id ∧ a = new) ∧ sent = true) ∨ (p.find? id = some a ∧ number ≠ id) := by
  by_cases same : number = id
  · subst same
    cases sent with
    | true => simp [eq_comm]
    | false => simp
  · have other : id ≠ number := fun e => same e.symm
    cases sent with
    | true => simp [find?_insert_of_ne other, same]
    | false => simp [find?_remove_of_ne other, find?_insert_of_ne other, same]

theorem Call.spares_iff {call : Call} {id : CorrelationId} {a : Activation} : call.spares (id, a) = true ↔
    (∀ answer, call ≠ .event (.activationAnswered id answer)) ∧ call ≠ .unregister a.app := by
  cases call with
  | unregister app =>
    simp only [spares, decide_eq_true_eq, ne_eq, unregister.injEq, reduceCtorEq, not_false_eq_true, implies_true,
      true_and]
    exact not_congr eq_comm
  | event e =>
    cases e with
    | activationAnswered number answer =>
      simp only [spares, decide_eq_true_eq, ne_eq, event.injEq, Event.activationAnswered.injEq, reduceCtorEq,
        not_false_eq_true, and_true]
      exact ⟨fun other _ same => other same.1.symm, fun other same => other answer ⟨same.symm, rfl⟩⟩
    | _ => simp [spares]
  | _ => simp [spares]

namespace Board
variable {b : Board} {c : Conditions} {call : Call} {t : Turn} {id : CorrelationId} {a : Activation}

theorem find?_withoutAnswered : (b.withoutAnswered call).pending.find? id = some a ↔
    b.pending.find? id = some a ∧ ∀ answer, call ≠ .event (.activationAnswered id answer) := by
  cases call with
  | event e =>
    cases e with
    | activationAnswered number answer =>
      change (b.pending.filter fun row => row.1 ≠ number).find? id = some a ↔ _
      rw [Pending.find?_filter_eq_some_iff, decide_eq_true_eq]
      refine and_congr_right fun _ => ⟨fun other answer' same => ?_, fun other same => ?_⟩
      · cases same
        exact other rfl
      · exact other answer (same ▸ rfl)
    | _ => simp [withoutAnswered]
  | _ => simp [withoutAnswered]

/-- A turn that asks the HMI for nothing enters no activation, and takes away those that it answers or whose
    application leaves. -/
theorem Replied.find?_iff (h : Replied c b call t) (silent : ∀ number, t.reply ≠ .awaiting number) :
    t.board.pending.find? id = some a ↔ b.pending.find? id = some a ∧
      (∀ answer, call ≠ .event (.activationAnswered id answer)) ∧
      (call = .unregister a.app → ∀ n, t.reply ≠ .applied n) := by
  cases h with
  | dropped f named =>
    refine find?_withoutAnswered.trans (and_congr_right fun _ => ?_)
    exact (and_iff_left fun _ _ reply => by cases reply).symm
  | postponed wish known =>
    refine (and_iff_left ⟨fun answer e => ?_, fun _ _ reply => by cases reply⟩).symm
    rw [e] at wish
    cases wish
  | awaiting wish known number => exact absurd rfl (silent number)
  | @applied t n applied pending asksNothing =>
    rw [pending, Pending.find?_filter_eq_some_iff, Call.spares_iff]
    refine and_congr_right fun _ => and_congr_right fun _ => ⟨fun other same => absurd same other, fun stays same => ?_⟩
    exact stays same n applied

end Board

/-! ### Runs -/

namespace Session
variable {s : Session} {id : CorrelationId} {a : Activation}

theorem runAll_fst (cs : List Command) (s : Session) : (s.runAll cs).1 = cs.foldl (fun s c => (s.run c).1) s := by
  unfold runAll
  generalize ([] : Log) = past
  induction cs generalizing s past with
  | nil => rfl
  | cons c cs ih => exact ih _ _

theorem runAll_concat (cs : List Command) (c : Command) (s : Session) :
    (s.runAll (cs ++ [c])).1 = ((s.runAll cs).1.run c).1 := by
  simp [runAll_fst]

theorem Reacts.runAll {allowed : Command → Prop} (reacts : Reacts allowed s.host.reactions) (cs : List Command) :
    Reacts allowed (s.runAll cs).1.host.reactions := by
  induction cs using List.reverseRecOn with
  | nil => exact reacts
  | append_singleton cs c ih =>
    rw [runAll_concat]
    exact ih.run c

/-- The commands of a run, each with the session that it found. -/
def exchanges : List Command → Session → List Exchange
  | [], _ => []
  | c :: cs, s => ⟨s, c⟩ :: exchanges cs (s.run c).1

theorem exchanges_concat (cs : List Command) (c : Command) (s : Session) :
    s.exchanges (cs ++ [c]) = s.exchanges cs ++ [⟨(s.runAll cs).1, c⟩] := by
  induction cs generalizing s with
  | nil => rfl
  | cons c' cs ih =>
    rw [List.cons_append, exchanges, ih, runAll_fst, runAll_fst]
    rfl

/-! ### What a command does to a pending activation -/

theorem response_call (call : Call) (s : Session) :
    Exchange.response ⟨s, .call call⟩ = .reply (s.turn call).reply :=
  run_call_reply call s

theorem asks_call_iff {call : Call} {number : CorrelationId} {r : AppRecord} {asked : Status}
    (reply : (s.turn call).reply = .awaiting number) (wish : call.wish? s.board.apps = some (r.app, asked))
    (known : s.board.apps.record? r.app = some r) : Exchange.Asks id a ⟨s, .call call⟩ ↔
      number = id ∧ a = ⟨r.app, r.profile.hmiApp, asked, s.host.now⟩ := by
  have response := response_call call s
  rw [reply] at response
  constructor
  · rintro ⟨awaits, ⟨call', given, wish'⟩, ⟨r', known', hmiApp⟩, askedAt⟩
    cases response.symm.trans awaits
    cases given
    obtain ⟨app, target⟩ := Prod.mk.inj (Option.some.inj (wish.symm.trans wish'))
    rw [← app, known] at known'
    cases known'
    obtain ⟨_, _, _, _⟩ := a
    exact ⟨rfl, Activation.mk.injEq .. ▸ ⟨app.symm, hmiApp.symm, target.symm, askedAt⟩⟩
  · rintro ⟨rfl, rfl⟩
    exact ⟨response, ⟨call, rfl, wish⟩, ⟨r, known, rfl⟩, rfl⟩

theorem spares_call_iff {call : Call} : Exchange.Spares id a ⟨s, .call call⟩ ↔
    (s.turn call).reply ≠ .awaiting id ∧ (∀ answer, call ≠ .event (.activationAnswered id answer)) ∧
      (call = .unregister a.app → ∀ n, (s.turn call).reply ≠ .applied n) := by
  have response := response_call call s
  constructor
  · rintro ⟨unasked, unanswered, stays, -⟩
    rw [response] at unasked stays
    simpa using And.intro unasked (And.intro unanswered stays)
  · rintro ⟨unasked, unanswered, stays⟩
    refine ⟨?_, ?_, ?_, fun swept => by cases swept⟩
    · simpa [response] using unasked
    · simpa using unanswered
    · simpa [response] using stays

/-- A call leaves an activation pending that it asks for and that can be sent, and one that was pending before
    unless it ends its wait. -/
theorem find?_run_call (rest : s.outbox = {}) (aside : Reacts Command.IsAside s.host.reactions) (call : Call) :
    (s.run (.call call)).1.board.pending.find? id = some a ↔
      (Exchange.Asks id a ⟨s, .call call⟩ ∧ s.host.accepts = true) ∨
        (s.board.pending.find? id = some a ∧ Exchange.Spares id a ⟨s, .call call⟩) := by
  have replied := turn_replied call s
  rw [spares_call_iff]
  by_cases awaits : ∃ number, (s.turn call).reply = .awaiting number
  · obtain ⟨number, reply⟩ := awaits
    obtain ⟨r, asked, wish, known, turn⟩ := replied.of_awaiting reply
    -- The request may have taken the number from an activation that was pending under it.
    have plain : ∀ answer, call ≠ .event (.activationAnswered id answer) := by
      rintro answer rfl
      cases wish
    have entered : (s.run (.call call)).1.board.pending =
        let p := s.board.pending.insert number ⟨r.app, r.profile.hmiApp, asked, s.host.now⟩
        if s.host.accepts = true then p else p.remove number := by
      rw [run_call_board_of_activate rest aside (congrArg Turn.notices turn), turn]
      split <;> rfl
    rw [entered, Pending.find?_entered, asks_call_iff reply wish known, reply]
    refine or_congr_right (and_congr_right fun _ => ?_)
    simp [plain]
  · have silent : ∀ number, (s.turn call).reply ≠ .awaiting number := fun number reply => awaits ⟨number, reply⟩
    have asksNot : ¬ Exchange.Asks id a ⟨s, .call call⟩ := fun asks =>
      silent id (Response.reply.inj ((response_call call s).symm.trans asks.awaits))
    rw [run_call_board_of_asksNothing rest aside (replied.asksNothing silent), replied.find?_iff silent]
    simp [asksNot, silent id]

theorem run_ne_reply {c : Command} (given : ∀ call, c ≠ .call call) (r : Reply) : (s.run c).2 ≠ .reply r := by
  intro reply
  cases c with
  | call call => exact given call rfl
  | setPolicy p =>
    change (s.opened.enter (.setPolicy p)).2 = _ at reply
    simp only [enter] at reply
    split at reply <;> cases reply
  | _ => cases reply

theorem not_asks {c : Command} (given : ∀ call, c ≠ .call call) : ¬ Exchange.Asks id a ⟨s, c⟩ :=
  fun asks => run_ne_reply given _ asks.awaits

theorem spares_iff_unswept {c : Command} (given : ∀ call, c ≠ .call call) : Exchange.Spares id a ⟨s, c⟩ ↔
    (c = .expire → a.isExpired s.host.now s.settings.timeout = false) :=
  ⟨fun spares => spares.unswept,
    fun unswept => ⟨run_ne_reply given _, fun _ => given _, fun leaves => absurd leaves (given _), unswept⟩⟩

theorem run_board_of_rest (rest : s.outbox = {}) {c : Command} (quiet : (s.opened.enter c).1.outbox = s.outbox) :
    (s.run c).1.board = (s.opened.enter c).1.board := by
  change (s.opened.enter c).1.flush.board = _
  rw [flush_of_rest (quiet.trans rest)]

/-- A sweep that finds nothing expired changes nothing. -/
theorem run_expire_of_fresh (rest : s.outbox = {})
    (fresh : ∀ row ∈ s.board.pending.rows, row.2.isExpired s.host.now s.settings.timeout = false) :
    (s.run .expire).1 = s.opened := by
  have kept : (s.board.pending.expire s.host.now s.settings.timeout).2 = s.board.pending :=
    Pending.filter_eq_self fun row mem => by rw [fresh row mem, Bool.not_false]
  change ({ s.opened with board :=
    { s.board with pending := (s.board.pending.expire s.host.now s.settings.timeout).2 } } : Session).flush = _
  rw [kept]
  exact flush_of_rest rest

theorem find?_run (rest : s.outbox = {}) (aside : Reacts Command.IsAside s.host.reactions) (c : Command) :
    (s.run c).1.board.pending.find? id = some a ↔
      (Exchange.Asks id a ⟨s, c⟩ ∧ s.host.accepts = true) ∨
        (s.board.pending.find? id = some a ∧ Exchange.Spares id a ⟨s, c⟩) := by
  by_cases idle : c.IsAside
  · obtain ⟨board, outbox, -⟩ := enter_aside idle s.opened
    have given : ∀ call, c ≠ .call call := by
      rintro call rfl
      exact idle
    have unswept : c ≠ .expire := by
      rintro rfl
      exact idle
    rw [run_board_of_rest rest outbox, board, spares_iff_unswept given]
    simp [not_asks given, unswept, opened]
  · cases c with
    | call call => exact find?_run_call rest aside call
    | expire =>
      have given : ∀ call, Command.expire ≠ .call call := fun call same => by cases same
      rw [run_board_of_rest rest rfl, spares_iff_unswept given]
      change (s.board.pending.filter fun row => !row.2.isExpired s.host.now s.settings.timeout).find? id = _ ↔ _
      simp [Pending.find?_filter_eq_some_iff, not_asks given]
    | _ => exact absurd trivial idle

/-! ### The handshake -/

/-- An activation is pending if and only if it stands. -/
theorem find?_iff_standing (settings : Settings) {host : Host} (aside : Reacts Command.IsAside host.reactions)
    (cs : List Command) : (runAll cs { settings, host }).1.board.pending.find? id = some a ↔
      Standing (exchanges cs { settings, host }) id a := by
  -- From the end of the run, so that the session before each command is the one that the run so far leads to.
  induction cs using List.reverseRecOn generalizing a with
  | nil => exact iff_of_false nofun not_standing_nil
  | append_singleton cs c ih =>
    have rest : (runAll cs { settings, host }).1.outbox = {} := runAll_outbox rfl cs
    have idle := Reacts.runAll (s := { settings, host }) aside cs
    rw [runAll_concat, exchanges_concat, standing_concat, find?_run rest idle, ih]

theorem exists_asks {x : Exchange} (awaits : x.response = .reply (.awaiting id)) : ∃ a, x.Asks id a := by
  obtain ⟨s, c⟩ := x
  by_cases given : ∃ call, c = .call call
  · obtain ⟨call, rfl⟩ := given
    have reply := Response.reply.inj ((response_call call s).symm.trans awaits)
    obtain ⟨r, asked, wish, known, -⟩ := (turn_replied call s).of_awaiting reply
    exact ⟨_, (asks_call_iff reply wish known).mpr ⟨rfl, rfl⟩⟩
  · exact absurd awaits (run_ne_reply (fun call same => given ⟨call, same⟩) _)

/-- With a host that gives no command from inside the deliveries, a successful answer is applied exactly if an
    activation stands under its number and has not expired. The status arbitrated is then the one that the
    last request under the number asked for, and it goes to the application found under the number at the HMI.
    Otherwise the answer is dropped, and all records stay as they were. -/
theorem answer_applied_iff (settings : Settings) (host : Host) (aside : Reacts Command.IsAside host.reactions)
    (cs : List Command) (id : CorrelationId) :
    let s := (runAll cs { settings, host }).1
    let past := exchanges cs { settings, host }
    let answered := s.run (.call (.event (.activationAnswered id .success)))
    ((∃ n, answered.2 = .reply (.applied n)) ↔
        ∃ a, Standing past id a ∧ a.isExpired s.host.now s.settings.timeout = false) ∧
      (∀ a, Standing past id a → a.isExpired s.host.now s.settings.timeout = false →
        ∃ owner, s.board.apps.ofHmiApp? a.hmiApp = some owner ∧ answered.1.board.apps =
          (s.board.apps.arbitrate owner a.target).map (·.informed s.policy.attenuates)) ∧
      ((∀ n, answered.2 ≠ .reply (.applied n)) →
        ∃ f, answered.2 = .reply (.dropped f) ∧ answered.1.board.apps = s.board.apps) ∧
      ∀ x ∈ past, x.response = .reply (.awaiting id) → ∃ a, x.Asks id a := by
  intro s past answered
  have reachable : s.Reachable := by
    change (runAll cs { settings, host }).1.Reachable
    rw [runAll_fst]
    exact (Reachable.fresh settings host).runs cs
  have idle : Reacts Command.IsAside s.host.reactions := Reacts.runAll (s := { settings, host }) aside cs
  -- What the answer finds is what stands.
  have resolved_iff : ∀ a, s.board.pending.resolution id .success s.host.now s.settings.timeout = .ok a ↔
      Standing past id a ∧ a.isExpired s.host.now s.settings.timeout = false := fun a => by
    rw [Pending.resolution_eq_ok_iff, find?_iff_standing settings aside cs]
    exact and_congr_right fun _ => and_iff_right rfl
  have apps : answered.1.board.apps = (s.turn (.event (.activationAnswered id .success))).board.apps :=
    (After.delivered idle).apps
  rcases reachable.board.anchored.answer_cases s.conditions id .success with
    ⟨f, resolved, turn⟩ | ⟨a, owner, resolved, found, turn⟩
  · have dropped : answered.2 = .reply (.dropped f) :=
      (run_call_reply _ s).trans (congrArg (Response.reply ·.reply) turn)
    have none : ∀ a, ¬ (Standing past id a ∧ a.isExpired s.host.now s.settings.timeout = false) := fun a stands => by
      cases resolved.symm.trans ((resolved_iff a).mpr stands)
    refine ⟨⟨fun ⟨n, applied⟩ => ?_, fun ⟨a, stands⟩ => absurd stands (none a)⟩,
      fun a stands fresh => absurd ⟨stands, fresh⟩ (none a),
      fun _ => ⟨f, dropped, apps.trans (congrArg (·.board.apps) turn)⟩, fun _ _ => exists_asks⟩
    cases dropped.symm.trans applied
  · have applied : ∃ n, answered.2 = .reply (.applied n) :=
      ⟨_, (run_call_reply _ s).trans (congrArg (Response.reply ·.reply) turn)⟩
    refine ⟨⟨fun _ => ⟨a, (resolved_iff a).mp resolved⟩, fun _ => applied⟩, fun a' stands fresh => ?_,
      fun other => ?_, fun _ _ => exists_asks⟩
    · cases resolved.symm.trans ((resolved_iff a').mpr ⟨stands, fresh⟩)
      exact ⟨owner, found, apps.trans (congrArg (·.board.apps) turn)⟩
    · obtain ⟨n, applied⟩ := applied
      exact absurd applied (other n)

/-- The number of a request that could not be sent is given out again, and a sweep comes too early. The answer
    brings the second application to the front; when it comes again, it is dropped. -/
theorem answer_applied_iff_number_given_again :
    let answer : Command := .call (.event (.activationAnswered ⟨7⟩ .success))
    let cs : List Command := [.call (.register ⟨⟨1⟩, ⟨11⟩, { media := true }⟩ .limited),
      .call (.register ⟨⟨2⟩, ⟨12⟩, {}⟩ .absent), .queueIds [⟨7⟩, ⟨7⟩], .accept false, .call (.requestLevel ⟨1⟩ .full),
      .accept true, .setClock 1000, .call (.requestLevel ⟨2⟩ .full), .setClock 10000, .expire]
    let s := (runAll cs {}).1
    let answered := s.run answer
    (∃ n, answered.2 = .reply (.applied n)) ∧
      (∃ owner, s.board.apps.ofHmiApp? ⟨12⟩ = some owner ∧ answered.1.board.apps =
        (s.board.apps.arbitrate owner ⟨.full, .notAudible, .notStreamable, .main, .regular⟩).map
          (·.informed s.policy.attenuates)) ∧
      (answered.1.view ⟨2⟩).regular? = some ⟨.full, .notAudible, .notStreamable, .main, .regular⟩ ∧
      (answered.1.run answer).2 = .reply (.dropped (.unknownCorrelation ⟨7⟩)) := by
  intro answer cs s answered
  have aside : Reacts Command.IsAside ({} : Host).reactions := .of_eq_nil rfl
  let a : Activation := ⟨⟨2⟩, ⟨12⟩, ⟨.full, .notAudible, .notStreamable, .main, .regular⟩, 1000⟩
  let before := (runAll cs.dropLast {}).1
  have rows : before.board.pending.rows = [(⟨7⟩, a)] := by cbv
  have now : before.host.now = 10000 := by cbv
  have timeout : before.settings.timeout = some 10 := by cbv
  -- Nine seconds after its request the activation is not yet swept away.
  have unswept : s = before.opened := by
    refine (runAll_concat cs.dropLast .expire {}).trans (run_expire_of_fresh (runAll_outbox rfl _) fun row mem => ?_)
    rw [rows, List.mem_singleton] at mem
    rw [mem, now, timeout]
    rfl
  have waits : s.board.pending.find? ⟨7⟩ = some a := by
    rw [unswept]
    cbv
  have stands : Standing (exchanges cs {}) ⟨7⟩ a := (find?_iff_standing {} aside cs).mp waits
  have fresh : a.isExpired s.host.now s.settings.timeout = false := by
    rw [unswept, opened, now, timeout]
    rfl
  obtain ⟨applied, arbitrated, -, -⟩ := answer_applied_iff {} {} aside cs ⟨7⟩
  have found : s.board.apps.ofHmiApp? a.hmiApp = some ⟨2⟩ := by
    rw [unswept]
    cbv
  have board := run_board_of_success (s := s) (runAll_outbox rfl cs) (Reacts.runAll aside cs) waits fresh found
  refine ⟨applied.mpr ⟨a, stands, fresh⟩, arbitrated a stands fresh, ?_, ?_⟩
  · rw [view_regular?, board, unswept]
    cbv
  · have nothing : answered.1.board.pending.find? ⟨7⟩ = none := by
      rw [board, unswept]
      cbv
    have unknown : answered.1.board.pending.resolution ⟨7⟩ .success answered.1.conditions.now
        answered.1.conditions.timeout = .error (.unknownCorrelation ⟨7⟩) := by
      rw [Pending.resolution, nothing]
    exact (run_call_reply _ _).trans (congrArg (Response.reply ·.reply) (Board.activationAnswered_of_error unknown))

end Session

end HeadUnit
