import HeadUnit.Proofs.History
import HeadUnit.Proofs.Unapplied

/-! Correlation numbers. A host that hands out the numbers of its counter and no others gives each call that
    needs a number the next one, and after the last of them the counter begins anew. A number is lost where the
    call then asks the HMI for nothing. Until the counter has come round, the HMI was asked under a new number
    every time: no pending activation takes the place of another, and each goes back to one turn. -/

namespace HeadUnit

/-! ### Counting -/

namespace Ident
variable {k : IdentKind}

/-- The number that comes `n` places after this one. -/
def after (i : Ident k) (n : Nat) : Ident k := ⟨i.number + UInt32.ofNat n⟩

theorem after_zero (i : Ident k) : i.after 0 = i := by simp [after]

theorem next_after (i : Ident k) (n : Nat) : (i.after n).next = i.after (n + 1) := by
  simp only [after, next, UInt32.ofNat_add, UInt32.add_assoc]
  rfl

/-- The counter comes to no number again before it has come to them all. -/
theorem after_injOn {i : Ident k} {m n : Nat} (hm : m < UInt32.size) (hn : n < UInt32.size)
    (same : i.after m = i.after n) : m = n := by
  have words : UInt32.ofNat m = UInt32.ofNat n := UInt32.add_right_inj i.number |>.mp (congrArg Ident.number same)
  rw [← UInt32.toNat_ofNat_of_lt' hm, words, UInt32.toNat_ofNat_of_lt' hn]

theorem nodup_map_after (i : Ident k) {n : Nat} (h : n ≤ UInt32.size) : ((List.range n).map i.after).Nodup := by
  refine List.Nodup.map_on (fun a ha b hb same => ?_) List.nodup_range
  exact after_injOn ((List.mem_range.mp ha).trans_le h) ((List.mem_range.mp hb).trans_le h) same

end Ident

/-- The number under which the HMI was asked. -/
def Reply.awaited? : Reply → Option CorrelationId
  | .awaiting id => some id
  | _ => none

namespace History
variable {turns : History} {x : Call × Turn} {row : CorrelationId × Activation} {j : Nat}

/-- How many numbers were drawn. -/
def drawn (turns : History) : Nat := turns.countP fun x => x.1.drawsId

/-- The numbers under which the HMI was asked, in this order. -/
def awaited (turns : History) : List CorrelationId := turns.filterMap fun x => x.2.reply.awaited?

/-- The turn at a place was answered with the number of the activation, and this activation is what it had
    asked for. -/
def AsksAt (turns : History) (j : Nat) (row : CorrelationId × Activation) : Prop :=
  ∃ call t, turns[j]? = some (call, t) ∧ t.reply = .awaiting row.1 ∧
    call.wish? (turns.roster j) = some (row.2.app, row.2.target) ∧ t.board.pending.find? row.1 = some row.2

theorem drawn_concat : drawn (turns ++ [x]) = turns.drawn + if x.1.drawsId then 1 else 0 := by
  simp [drawn, List.countP_append, List.countP_singleton]

theorem awaited_concat : awaited (turns ++ [x]) = turns.awaited ++ x.2.reply.awaited?.toList := by
  rw [awaited, List.filterMap_append]
  cases h : x.2.reply.awaited? <;> simp [awaited, h]

theorem AsksAt.concat (h : turns.AsksAt j row) (x : Call × Turn) : AsksAt (turns ++ [x]) j row := by
  obtain ⟨call, t, at_, reply, wish, entered⟩ := h
  have lt : j < turns.length := (List.getElem?_eq_some_iff.mp at_).1
  refine ⟨call, t, ?_, reply, ?_, entered⟩
  · rw [List.getElem?_append_left lt, at_]
  · rwa [roster_append _ lt.le]

theorem AsksAt.mem_awaited (h : turns.AsksAt j row) : row.1 ∈ turns.awaited := by
  obtain ⟨call, t, at_, reply, -⟩ := h
  refine List.mem_filterMap.mpr ⟨(call, t), List.mem_of_getElem? at_, ?_⟩
  simp [reply, Reply.awaited?]

/-- Where the HMI was never asked twice under a number, an activation goes back to one turn. -/
theorem AsksAt.unique (distinct : turns.awaited.Nodup) {i : Nat} (hi : turns.AsksAt i row)
    (hj : turns.AsksAt j row) : i = j := by
  -- Of two places the earlier one comes first.
  have apart : ∀ {i j}, i < j → turns.AsksAt i row → ¬ turns.AsksAt j row := by
    rintro i j lt ⟨call, t, hi, reply, -⟩ ⟨call', t', hj, reply', -⟩
    obtain ⟨li, ei⟩ := List.getElem?_eq_some_iff.mp hi
    obtain ⟨lj, ej⟩ := List.getElem?_eq_some_iff.mp hj
    have pair := List.pairwise_iff_getElem.mp (List.pairwise_filterMap.mp distinct) i j li lj lt
    rw [ei, ej] at pair
    exact pair row.1 (by simp [reply, Reply.awaited?]) row.1 (by simp [reply', Reply.awaited?]) rfl
  rcases Nat.lt_trichotomy i j with lt | same | gt
  · exact absurd hj (apart lt hi)
  · exact same
  · exact absurd hi (apart gt hj)

end History

/-! ### Steps -/

/-- A command that leaves it to the counter which numbers are handed out. -/
def Command.KeepsCounting : Command → Prop
  | .queueIds _ => False
  | _ => True

/-- A turn enters no activation but the one that it asks for. -/
theorem Board.Replied.pending_cases {c : Conditions} {b : Board} {call : Call} {t : Turn} (h : Board.Replied c b call t)
    {row : CorrelationId × Activation} (pending : row ∈ t.board.pending.rows) :
    row ∈ b.pending.rows ∨ t.reply = .awaiting row.1 ∧
      call.wish? b.apps = some (row.2.app, row.2.target) ∧ t.board.pending.find? row.1 = some row.2 := by
  cases h with
  | dropped f named =>
    change row ∈ (b.withoutAnswered call).pending.rows at pending
    unfold withoutAnswered at pending
    split at pending
    · exact Or.inl (Pending.mem_filter_rows.mp pending).1
    · exact Or.inl pending
  | postponed wish known => exact Or.inl pending
  | awaiting wish known id =>
    rcases Pending.mem_insert_rows.mp pending with rfl | ⟨old, -⟩
    · exact Or.inr ⟨rfl, wish, Pending.find?_insert_self ..⟩
    · exact Or.inl old
  | applied reply kept asksNothing =>
    rw [kept] at pending
    exact Or.inl (Pending.mem_filter_rows.mp pending).1

namespace Session
variable {s t : Session} {past : Log}

theorem drawn?_of_unqueued (unqueued : s.host.queuedIds = []) (c : Call) :
    s.drawn? c = if c.drawsId then some s.host.nextId else none := by
  simp only [drawn?, Host.drawId, unqueued]

theorem enter_call_counter (unqueued : s.host.queuedIds = []) (c : Call) :
    (s.enter (.call c)).1.host.queuedIds = [] ∧
      (s.enter (.call c)).1.host.nextId = if c.drawsId then s.host.nextId.next else s.host.nextId := by
  simp only [enter, enterCall, Host.noteTurn, Host.drawId, unqueued]
  split <;> exact ⟨by simp [unqueued], by simp [*]⟩

/-- A step is the turn of a call, or leaves the counter and the turns alone and enters no activation. -/
theorem Step.counter_cases (hs : Step Command.KeepsCounting s t) :
    (∃ call, t = (s.enter (.call call)).1) ∨
      t.host.queuedIds = s.host.queuedIds ∧ t.host.nextId = s.host.nextId ∧ t.board.apps = s.board.apps ∧
        Log.turns t.host.log = Log.turns s.host.log ∧ ∀ row ∈ t.board.pending.rows, row ∈ s.board.pending.rows := by
  cases hs with
  | enter c keeps s =>
    cases c with
    | call c => exact Or.inl ⟨c, rfl⟩
    | expire => exact Or.inr ⟨rfl, rfl, rfl, rfl, fun _ hrow => (Pending.mem_filter_rows.mp hrow).1⟩
    | queueIds ids => exact absurd keeps id
    | setPolicy p =>
      simp only [Session.enter]
      split <;> exact Or.inr ⟨rfl, rfl, rfl, rfl, fun _ hrow => hrow⟩
    | _ => exact Or.inr ⟨rfl, rfl, rfl, rfl, fun _ hrow => hrow⟩
  | note c r s =>
    exact Or.inr ⟨rfl, rfl, rfl, by simp [Host.noteInside, Log.turns_concat, LogEntry.turn?], fun _ hrow => hrow⟩
  | receive waiting reactions =>
    exact Or.inr ⟨rfl, rfl, rfl, by simp [Host.receive, Log.turns_concat, LogEntry.turn?], fun _ hrow => hrow⟩
  | unsent id s => exact Or.inr ⟨rfl, rfl, rfl, rfl, fun _ hrow => (Pending.mem_filter_rows.mp hrow).1⟩
  | guard on s => exact Or.inr ⟨rfl, rfl, rfl, rfl, fun _ hrow => hrow⟩

/-! ### The counter over a life -/

/-- A session at any moment of its life, with the log of the commands before the one under way. It began with an
    empty head unit in the hands of the host, and only commands that are `allowed` are given. -/
inductive Lived (allowed : Command → Prop) (settings : Settings) (host : Host) : Log → Session → Prop
  | fresh : Lived allowed settings host [] (opened { settings, host })
  | opened {past : Log} {s : Session} (h : Lived allowed settings host past s) :
      Lived allowed settings host (past ++ s.host.log) s.opened
  | step {past : Log} {s t : Session} (h : Lived allowed settings host past s) (hs : Step allowed s t) :
      Lived allowed settings host past t

/-- Between two commands of a run. -/
theorem lived_runAll {allowed : Command → Prop} (settings : Settings) {host : Host} {cs : List Command}
    (outside : ∀ c ∈ cs, allowed c) (inside : Reacts allowed host.reactions) :
    Lived allowed settings host (runAll cs { settings, host }).2 (runAll cs { settings, host }).1.opened :=
  runAll_induct .step .opened .fresh outside inside

/-- The turns before a moment, those of the command under way included. -/
def turnsUntil (past : Log) (s : Session) : History := Log.turns (past ++ s.host.log)

theorem turnsUntil_enter_call (past : Log) (c : Call) (s : Session) :
    (s.enter (.call c)).1.turnsUntil past = s.turnsUntil past ++ [(c, s.turn c)] := by
  rw [turnsUntil, enter_call_log, ← List.append_assoc, Log.turns_concat]
  rfl

theorem turnsUntil_opened (past : Log) (s : Session) :
    s.opened.turnsUntil (past ++ s.host.log) = s.turnsUntil past := by
  simp [turnsUntil, opened]

theorem turnsUntil_congr (same : Log.turns t.host.log = Log.turns s.host.log) :
    t.turnsUntil past = s.turnsUntil past := by
  simp only [turnsUntil, Log.turns, List.filterMap_append]
  exact congrArg (_ ++ ·) same

/-- After any turns: the counter stands as many places on as numbers were drawn, the HMI was asked under some of
    those numbers, in this order, and for every pending activation it was asked. -/
structure Counted (first : CorrelationId) (turns : History) (s : Session) : Prop where
  unqueued : s.host.queuedIds = []
  counter : s.host.nextId = first.after turns.drawn
  awaited : turns.awaited.Sublist ((List.range turns.drawn).map first.after)
  asked : ∀ row ∈ s.board.pending.rows, ∃ j, turns.AsksAt j row
  roster : s.board.apps = turns.roster turns.length

variable {first : CorrelationId} {turns : History}

/-- What is asked next is asked under the number of the counter. -/
theorem Counted.awaiting (h : Counted first turns s) {c : Call} {id : CorrelationId}
    (awaits : (s.turn c).reply = .awaiting id) : c.drawsId = true ∧ id = first.after turns.drawn := by
  have drawn := Board.perform_awaiting awaits
  rw [drawn?_of_unqueued h.unqueued, h.counter] at drawn
  split at drawn
  · next draws => exact ⟨draws, (Option.some.inj drawn).symm⟩
  · cases drawn

theorem Counted.enter_call (h : Counted first turns s) (c : Call) :
    Counted first (turns ++ [(c, s.turn c)]) (s.enter (.call c)).1 := by
  obtain ⟨unqueued, counter⟩ := enter_call_counter h.unqueued c
  refine ⟨unqueued, ?_, ?_, fun row hrow => ?_, ?_⟩
  · rw [counter, h.counter, History.drawn_concat]
    split
    · exact Ident.next_after first _
    · rfl
  · rw [History.awaited_concat, History.drawn_concat]
    cases reply : (s.turn c).reply with
    | awaiting id =>
      obtain ⟨draws, rfl⟩ := h.awaiting reply
      simp only [draws, ↓reduceIte, List.range_succ, List.map_append]
      exact h.awaited.append (.refl _)
    | _ =>
      simp only [Reply.awaited?, Option.toList_none, List.append_nil]
      refine h.awaited.trans (List.Sublist.map _ (List.range_sublist.mpr ?_))
      split <;> omega
  · rw [enter_call_board] at hrow
    rcases (turn_replied c s).pending_cases hrow with old | ⟨reply, wish, entered⟩
    · obtain ⟨j, asks⟩ := h.asked row old
      exact ⟨j, asks.concat _⟩
    · refine ⟨turns.length, c, s.turn c, List.getElem?_concat_length, reply, ?_, entered⟩
      rw [History.roster_append _ le_rfl, ← h.roster]
      exact wish
  · rw [History.roster_concat_length, enter_call_board]

theorem Lived.counted {settings : Settings} {host : Host} (unqueued : host.queuedIds = [])
    (h : Lived Command.KeepsCounting settings host past s) : Counted host.nextId (s.turnsUntil past) s := by
  induction h with
  | fresh =>
    exact ⟨unqueued, (Ident.after_zero _).symm, .slnil, fun _ hrow => (by cases hrow), rfl⟩
  | opened _ ih =>
    rw [turnsUntil_opened]
    exact ⟨ih.unqueued, ih.counter, ih.awaited, ih.asked, ih.roster⟩
  | step _ hs ih =>
    rcases hs.counter_cases with ⟨call, rfl⟩ | ⟨queued, counter, apps, turns, pending⟩
    · rw [turnsUntil_enter_call]
      exact ih.enter_call call
    · rw [turnsUntil_congr turns]
      exact ⟨queued.trans ih.unqueued, counter.trans ih.counter, ih.awaited,
        fun row hrow => ih.asked row (pending row hrow), apps.trans ih.roster⟩

/-- With a host that hands out the numbers of its counter only, wherever that begins, and at any moment up to
    which no more than 2³² numbers were drawn: the HMI was never asked twice under a number; every pending
    activation is what one turn asked for, and no other; and a call under way that asks the HMI, while there are
    numbers left, finds nothing pending under its number. -/
theorem Lived.numbers_fresh {settings : Settings} {host : Host} (unqueued : host.queuedIds = [])
    (h : Lived Command.KeepsCounting settings host past s) (few : (s.turnsUntil past).drawn ≤ UInt32.size) :
    (s.turnsUntil past).awaited.Nodup ∧
      (∀ row ∈ s.board.pending.rows, ∃! j, (s.turnsUntil past).AsksAt j row) ∧
      ∀ call id, (s.enter (.call call)).2 = .reply (.awaiting id) → (s.turnsUntil past).drawn < UInt32.size →
        s.board.pending.find? id = none := by
  have counted := h.counted unqueued
  have distinct : (s.turnsUntil past).awaited.Nodup := counted.awaited.nodup (Ident.nodup_map_after _ few)
  refine ⟨distinct, fun row hrow => ?_, fun call id awaits left => ?_⟩
  · obtain ⟨j, asks⟩ := counted.asked row hrow
    exact ⟨j, asks, fun i asks' => asks'.unique distinct asks⟩
  · obtain ⟨-, rfl⟩ := counted.awaiting (Response.reply.inj ((enter_call_reply call s).symm.trans awaits))
    refine Pending.find?_eq_none_iff.mpr fun row hrow same => ?_
    -- A row under this number would have been asked for under an earlier place of the counter.
    obtain ⟨j, asks⟩ := counted.asked row hrow
    obtain ⟨n, earlier, place⟩ := List.mem_map.mp (counted.awaited.subset asks.mem_awaited)
    have lt := List.mem_range.mp earlier
    exact absurd (Ident.after_injOn (lt.trans left) left (place.trans same)) lt.ne

/-- The counter begins at its last number, and the one after it is lost to an application that nobody knows. -/
theorem Lived.numbers_fresh_around_zero :
    let host : Host := { nextId := ⟨4294967295⟩ }
    let ask (app : AppId) : Command := .call (.requestLevel app .full)
    let cs := [.call (.register ⟨⟨1⟩, ⟨11⟩, {}⟩ .background), .call (.register ⟨⟨2⟩, ⟨12⟩, {}⟩ .background),
      ask ⟨1⟩, ask ⟨3⟩, ask ⟨2⟩]
    let done := runAll cs { host }
    let s := done.1.opened
    (s.turnsUntil done.2).drawn = 3 ∧ (s.turnsUntil done.2).awaited = [⟨4294967295⟩, ⟨1⟩] ∧
      (s.turnsUntil done.2).awaited.Nodup ∧ s.board.pending.rows.map Prod.fst = [⟨1⟩, ⟨4294967295⟩] ∧
      (∀ row ∈ s.board.pending.rows, ∃! j, (s.turnsUntil done.2).AsksAt j row) ∧
      (s.enter (ask ⟨1⟩)).2 = .reply (.awaiting ⟨2⟩) ∧ s.board.pending.find? ⟨2⟩ = none := by
  intro host ask cs done s
  have counting : ∀ c ∈ cs, Command.KeepsCounting c := by
    simp [cs, ask, Command.KeepsCounting]
  have lived : Lived Command.KeepsCounting {} host done.2 s :=
    lived_runAll {} counting (.of_eq_nil rfl)
  have drawn : (s.turnsUntil done.2).drawn = 3 := by cbv
  have awaits : (s.enter (ask ⟨1⟩)).2 = .reply (.awaiting ⟨2⟩) := by cbv
  obtain ⟨distinct, owned, unused⟩ := numbers_fresh rfl lived (drawn ▸ by decide)
  exact ⟨drawn, by cbv, distinct, by cbv, owned, awaits, unused _ _ awaits (drawn ▸ by decide)⟩

end Session

end HeadUnit
