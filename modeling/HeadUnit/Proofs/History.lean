import HeadUnit.Proofs.Log

/-! The history of a session: its turns, each with the call that took it. What a session does to its records it
    does in turns, also where the host calls from inside the deliveries, so each turn finds the roster that the
    one before it had left. -/

namespace HeadUnit

/-- The turns of a session, with the calls that took them. -/
abbrev History := List (Call × Turn)

def LogEntry.turn? : LogEntry → Option (Call × Turn)
  | .turn c t => some (c, t)
  | _ => none

def Log.turns (log : Log) : History := log.filterMap LogEntry.turn?

namespace History

/-- The roster before a turn. -/
def roster (turns : History) : Nat → Roster
  | 0 => []
  | j + 1 => turns[j]?.elim [] fun x => x.2.board.apps

/-- Each turn was taken over a reachable board with the roster that the turn before had left. -/
def Played (turns : History) : Prop :=
  ∀ j call t, turns[j]? = some (call, t) →
    ∃ (b : Board) (c : Conditions) (id : Option CorrelationId),
      b.Reachable ∧ b.apps = turns.roster j ∧ t = b.perform c id call

variable {turns earlier later : History} {x : Call × Turn} {call : Call} {t : Turn} {j : Nat}

theorem roster_succ (h : turns[j]? = some (call, t)) : turns.roster (j + 1) = t.board.apps := by
  rw [roster, h]
  rfl

theorem roster_append (later : History) (h : j ≤ turns.length) : (turns ++ later).roster j = turns.roster j := by
  cases j with
  | zero => rfl
  | succ j => rw [roster, roster, List.getElem?_append_left h]

theorem roster_concat_length (x : Call × Turn) : (turns ++ [x]).roster (turns ++ [x]).length = x.2.board.apps := by
  rw [List.length_append, List.length_singleton, roster, List.getElem?_concat_length]
  rfl

theorem Played.concat (h : turns.Played) {b : Board} (reachable : b.Reachable)
    (apps : b.apps = turns.roster turns.length) (c : Conditions) (id : Option CorrelationId) (call : Call) :
    Played (turns ++ [(call, b.perform c id call)]) := by
  intro j call' t' ht'
  rcases Nat.lt_trichotomy j turns.length with lt | rfl | gt
  · rw [List.getElem?_append_left lt] at ht'
    rw [roster_append _ lt.le]
    exact h j call' t' ht'
  · rw [List.getElem?_concat_length] at ht'
    cases ht'
    exact ⟨b, c, id, reachable, by rw [roster_append _ le_rfl, apps], rfl⟩
  · rw [List.getElem?_eq_none (by rw [List.length_append, List.length_singleton]; omega)] at ht'
    cases ht'

/-- A history falls into what came before a turn, the turn, and what came after it. -/
theorem Played.split (h : Played (earlier ++ x :: later)) :
    ∃ (b : Board) (c : Conditions) (id : Option CorrelationId),
      b.Reachable ∧ b.apps = earlier.roster earlier.length ∧ x.2 = b.perform c id x.1 := by
  obtain ⟨b, c, id, reachable, apps, turn⟩ := h earlier.length x.1 x.2 (by simp)
  exact ⟨b, c, id, reachable, apps.trans (roster_append _ le_rfl), turn⟩

end History

/-! ### Logs -/

namespace Log

theorem turns_concat (log : Log) (e : LogEntry) : Log.turns (log ++ [e]) = log.turns ++ e.turn?.toList := by
  rw [turns, List.filterMap_append]
  cases h : e.turn? <;> simp [turns, h]

theorem queued_eq_turns (log : Log) : log.queued = log.turns.flatMap fun x => x.2.notices := by
  induction log with
  | nil => rfl
  | cons e log ih =>
    rw [queued, List.flatMap_cons, ← queued, ih]
    cases e <;> rfl

end Log

theorem LogEntry.IsQuiet.turn? {e : LogEntry} (h : e.IsQuiet) : e.turn? = none := by
  cases e with
  | turn c t => cases h
  | _ => rfl

/-! ### Sessions -/

namespace Session
variable {s t : Session} {past : Log}

/-- With the log of what went before: the turns have led to the roster of the session. -/
structure Follows (past : Log) (s : Session) : Prop where
  reachable : s.Reachable
  played : History.Played (Log.turns (past ++ s.host.log))
  apps : s.board.apps = (Log.turns (past ++ s.host.log)).roster (Log.turns (past ++ s.host.log)).length

theorem Follows.step (h : Follows past s) (hs : Step (fun _ => True) s t) : Follows past t := by
  have reachable := h.reachable.step hs
  rcases hs.cases with ⟨id, call, board, log, -⟩ | ⟨apps, ⟨e, quiet, log, -⟩ | ⟨log, -⟩⟩
  · have turns : Log.turns (past ++ t.host.log) =
        Log.turns (past ++ s.host.log) ++ [(call, s.board.perform s.conditions id call)] := by
      rw [log, ← List.append_assoc, Log.turns_concat]
      rfl
    refine ⟨reachable, ?_, ?_⟩
    · rw [turns]
      exact h.played.concat h.reachable.board h.apps _ _ _
    · rw [turns, History.roster_concat_length, board]
  · have turns : Log.turns (past ++ t.host.log) = Log.turns (past ++ s.host.log) := by
      rw [log, ← List.append_assoc, Log.turns_concat, quiet.turn?]
      exact List.append_nil _
    exact ⟨reachable, by rw [turns]; exact h.played, by rw [turns, apps]; exact h.apps⟩
  · exact ⟨reachable, by rw [log]; exact h.played, by rw [log, apps]; exact h.apps⟩

theorem Follows.opened (h : Follows past s) : Follows (past ++ s.host.log) s.opened := by
  refine ⟨h.reachable.opened, ?_, ?_⟩
  · rw [Session.opened, List.append_nil]
    exact h.played
  · rw [Session.opened, List.append_nil]
    exact h.apps

theorem played_runAll (settings : Settings) (host : Host) (cs : List Command) :
    History.Played (Log.turns (runAll cs { settings, host }).2) := by
  have start : Follows [] (Session.opened { settings, host }) := by
    refine ⟨(Reachable.fresh settings host).opened, ?_, rfl⟩
    intro j call t taken
    cases taken
  have follows : Follows (runAll cs { settings, host }).2 (runAll cs { settings, host }).1.opened :=
    runAll_induct (fun h (hs : Step (fun _ => True) _ _) => h.step hs) Follows.opened start (fun _ _ => trivial)
      fun _ _ _ _ => trivial
  have played := follows.played
  rw [Session.opened, List.append_nil] at played
  exact played

end Session

end HeadUnit
