import HeadUnit.Proofs.Steps
import Mathlib.Data.List.DropRight

/-! What the log of a session tells: what the turns queued, what the host received, and how the two
    belong together. Notices leave the outbox in the order in which they came into it, so at any moment
    what was queued is what was delivered, followed by what still waits. -/

namespace HeadUnit

/-! ### Notices -/

namespace Notice
variable {app : AppId}

def statusFor? (app : AppId) : Notice → Option Status
  | .status a s => if a = app then some s else none
  | _ => none

/-- The last status that an application is told. -/
def lastStatus? (app : AppId) (ns : List Notice) : Option Status := (ns.filterMap (statusFor? app)).getLast?

theorem lastStatus?_append (ns ms : List Notice) :
    lastStatus? app (ns ++ ms) = (lastStatus? app ms).or (lastStatus? app ns) := by
  rw [lastStatus?, List.filterMap_append, List.getLast?_append]
  rfl

end Notice

/-! ### Logs -/

namespace LogEntry

def queued : LogEntry → List Notice
  | .turn _ t => t.notices
  | _ => []

def delivered? : LogEntry → Option Notice
  | .notice n => some n
  | _ => none

/-- A turn that registered the application. -/
def registers (app : AppId) : LogEntry → Bool
  | .turn c t => (c.newcomer? t.reply).any fun p => p.app = app
  | _ => false

/-- Not a turn. -/
def IsQuiet : LogEntry → Prop
  | .turn .. => False
  | _ => True

variable {e : LogEntry}

theorem IsQuiet.queued (h : e.IsQuiet) : e.queued = [] := by
  cases e with
  | turn c t => cases h
  | _ => rfl

theorem IsQuiet.registers (h : e.IsQuiet) (app : AppId) : e.registers app = false := by
  cases e with
  | turn c t => cases h
  | _ => rfl

end LogEntry

abbrev Log := List LogEntry

namespace Log
variable {app : AppId} {log : Log} {e : LogEntry}

/-- What the turns queued, in this order. -/
def queued (log : Log) : List Notice := log.flatMap LogEntry.queued

def delivered (log : Log) : List Notice := log.filterMap LogEntry.delivered?

/-- What came before the latest registration of an application. -/
def beforeRegistration (app : AppId) (log : Log) : Log :=
  (log.rdropWhile fun e => !e.registers app).dropLast

/-- The last status delivered to an application of those that its latest registration or a later turn
    queued. Notices are delivered in the order in which they were queued, so those that had been queued
    before are the first. -/
def lastTold? (app : AppId) (log : Log) : Option Status :=
  Notice.lastStatus? app (log.delivered.drop (log.beforeRegistration app).queued.length)

/-- The last status queued for an application by its latest registration or a later turn. -/
def lastQueued? (app : AppId) (log : Log) : Option Status :=
  Notice.lastStatus? app (log.queued.drop (log.beforeRegistration app).queued.length)

@[simp] theorem queued_concat : Log.queued (log ++ [e]) = log.queued ++ e.queued := by
  simp [queued]

theorem delivered_concat : Log.delivered (log ++ [e]) = log.delivered ++ e.delivered?.toList := by
  rw [delivered, List.filterMap_append]
  cases h : e.delivered? <;> simp [delivered, h]

theorem beforeRegistration_concat_of_registers (h : e.registers app = true) :
    beforeRegistration app (log ++ [e]) = log := by
  rw [beforeRegistration, List.rdropWhile_concat_neg _ _ _ (by simp [h]), List.dropLast_concat]

theorem beforeRegistration_concat (h : e.registers app = false) :
    beforeRegistration app (log ++ [e]) = log.beforeRegistration app := by
  rw [beforeRegistration, List.rdropWhile_concat_pos _ _ _ (by simp [h])]
  rfl

theorem length_queued_beforeRegistration (app : AppId) (log : Log) :
    (log.beforeRegistration app).queued.length ≤ log.queued.length := by
  have before : log.beforeRegistration app <+: log :=
    (List.dropLast_prefix _).trans (List.rdropWhile_prefix _ _)
  obtain ⟨since, e⟩ := before
  have split : log.queued = (log.beforeRegistration app).queued ++ queued since := by
    conv_lhs => rw [← e]
    exact List.flatMap_append
  simp [split]

/-- A turn that registers the application starts afresh; any other adds to what was queued. -/
theorem lastQueued?_concat : lastQueued? app (log ++ [e]) =
    (Notice.lastStatus? app e.queued).or (if e.registers app = true then none else log.lastQueued? app) := by
  split
  · next h =>
    rw [lastQueued?, beforeRegistration_concat_of_registers h, queued_concat, List.drop_left, Option.or_none]
  · next h =>
    rw [lastQueued?, beforeRegistration_concat (by simpa using h), queued_concat,
      List.drop_append_of_le_length (length_queued_beforeRegistration app log), Notice.lastStatus?_append]
    rfl

theorem lastQueued?_concat_of_isQuiet (h : e.IsQuiet) : lastQueued? app (log ++ [e]) = log.lastQueued? app := by
  rw [lastQueued?_concat, h.queued, h.registers]
  rfl

end Log

namespace Host

@[simp] theorem drawId_log (h : Host) : h.drawId.2.log = h.log := by
  unfold drawId
  split <;> rfl

@[simp] theorem drawId_policy? (h : Host) : h.drawId.2.policy? = h.policy? := by
  unfold drawId
  split <;> rfl

end Host

namespace Session
variable {allowed : Command → Prop} {s t : Session}

/-! ### Steps and the log -/

/-- A step is a turn, or adds at most one entry that is none; without a turn no record changes. -/
theorem Step.cases (h : Step allowed s t) :
    (∃ id call, t.board = (s.board.perform s.conditions id call).board ∧
        t.host.log = s.host.log ++ [.turn call (s.board.perform s.conditions id call)] ∧
        t.outbox.queue = s.outbox.queue ++ (s.board.perform s.conditions id call).notices) ∨
      t.board.apps = s.board.apps ∧
        ((∃ e : LogEntry, e.IsQuiet ∧ t.host.log = s.host.log ++ [e] ∧
            s.outbox.queue = e.delivered?.toList ++ t.outbox.queue) ∨
          t.host.log = s.host.log ∧ t.outbox.queue = s.outbox.queue) := by
  cases h with
  | enter c _ s =>
    cases c with
    | call c =>
      refine Or.inl ⟨if c.drawsId then some s.host.drawId.1 else none, c, ?_⟩
      simp only [Session.enter, enterCall, Host.noteTurn]
      split
      · exact ⟨rfl, by rw [Host.drawId_log], rfl⟩
      · exact ⟨rfl, rfl, rfl⟩
    | setPolicy p =>
      simp only [Session.enter]
      split <;> exact Or.inr ⟨rfl, Or.inr ⟨rfl, rfl⟩⟩
    | _ => exact Or.inr ⟨rfl, Or.inr ⟨rfl, rfl⟩⟩
  | note c r s => exact Or.inr ⟨rfl, Or.inl ⟨.inside c r, trivial, rfl, rfl⟩⟩
  | receive waiting reactions => exact Or.inr ⟨rfl, Or.inl ⟨.notice _, trivial, rfl, waiting⟩⟩
  | unsent id s => exact Or.inr ⟨rfl, Or.inr ⟨rfl, rfl⟩⟩
  | guard on s => exact Or.inr ⟨rfl, Or.inr ⟨rfl, rfl⟩⟩

/-- With the log of what went before: what was queued is what was delivered and what still waits. -/
def InOrder (past : Log) (s : Session) : Prop :=
  Log.queued (past ++ s.host.log) = Log.delivered (past ++ s.host.log) ++ s.outbox.queue

theorem InOrder.step {past : Log} (h : InOrder past s) (hs : Step allowed s t) : InOrder past t := by
  rcases hs.cases with ⟨id, call, -, log, queue⟩ | ⟨-, ⟨e, quiet, log, queue⟩ | ⟨log, queue⟩⟩
  · rw [InOrder, log, ← List.append_assoc, Log.queued_concat, h, Log.delivered_concat, queue]
    simp [LogEntry.queued, LogEntry.delivered?]
  · rw [InOrder, log, ← List.append_assoc, Log.queued_concat, h, Log.delivered_concat, quiet.queued, queue]
    simp
  · rw [InOrder, log, queue]
    exact h

theorem InOrder.opened {past : Log} (h : InOrder past s) : InOrder (past ++ s.host.log) s.opened := by
  rw [InOrder, Session.opened, List.append_nil]
  exact h

/-! ### Runs -/

/-- Carries commands out one after the other, and keeps the logs of them all. -/
def runAll (cs : List Command) (s : Session) : Session × Log :=
  cs.foldl (fun x c => ((x.1.run c).1, x.2 ++ (x.1.run c).1.host.log)) (s, [])

/-- What every step keeps, and what stays when the log starts afresh, holds after any commands. -/
theorem runAll_induct {P : Log → Session → Prop} {cs : List Command}
    (step : ∀ {past s t}, P past s → Step allowed s t → P past t)
    (opened : ∀ {past s}, P past s → P (past ++ s.host.log) s.opened) (start : P [] s.opened)
    (outside : ∀ c ∈ cs, allowed c) (inside : Reacts allowed s.host.reactions) :
    P (s.runAll cs).2 (s.runAll cs).1.opened := by
  have steps : ∀ {past s t}, P past s → Steps allowed s t → P past t := by
    intro past s t h hs
    induction hs with
    | refl => exact h
    | tail _ hst ih => exact step ih hst
  suffices later : ∀ (past : Log) (s : Session), P past s.opened → Reacts allowed s.host.reactions →
      P (cs.foldl (fun x c => ((x.1.run c).1, x.2 ++ (x.1.run c).1.host.log)) (s, past)).2
        (cs.foldl (fun x c => ((x.1.run c).1, x.2 ++ (x.1.run c).1.host.log)) (s, past)).1.opened from
    later [] s start inside
  clear start inside
  induction cs with
  | nil => exact fun past s h _ => h
  | cons c cs ih =>
    intro past s h inside
    obtain ⟨carried, inside'⟩ := run_steps (outside c List.mem_cons_self) inside
    exact ih (fun c' hc' => outside c' (List.mem_cons_of_mem _ hc')) _ _ (opened (steps h carried)) inside'

/-- The outermost command leaves nothing in the outbox. -/
theorem run_outbox (h : s.outbox.draining = false) (c : Command) : (s.run c).1.outbox = {} := by
  refine Outbox.drain_isEmpty ?_ _
  cases c with
  | setPolicy p =>
    simp only [enter]
    split <;> exact h
  | _ => exact h

theorem runAll_outbox (h : s.outbox = {}) (cs : List Command) : (s.runAll cs).1.outbox = {} := by
  unfold runAll
  generalize ([] : Log) = past
  induction cs generalizing s past with
  | nil => exact h
  | cons c cs ih =>
    have rest : s.outbox.draining = false := by rw [h]
    exact ih (run_outbox rest c) _

/-- Once the outermost command has returned, everything that was queued has been delivered, in the order
    in which it was queued. -/
theorem delivered_runAll (settings : Settings) (host : Host) (cs : List Command) :
    let done := runAll cs { settings, host }
    done.2.delivered = done.2.queued := by
  intro done
  have inOrder : InOrder done.2 done.1.opened :=
    runAll_induct (fun h (hs : Step (fun _ => True) _ _) => h.step hs) InOrder.opened rfl (fun _ _ => trivial)
      fun _ _ _ _ => trivial
  have rest : done.1.opened.outbox = {} := runAll_outbox rfl cs
  rw [InOrder, Session.opened, List.append_nil] at inOrder
  rw [inOrder, show done.1.outbox = {} from rest, List.append_nil]

end Session

end HeadUnit
