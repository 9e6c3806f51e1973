import HeadUnit.Session
import HeadUnit.Proofs.Reachable
import Mathlib.Logic.Relation

/-! A session step by step. A command that a session carries out, with all that the host does inside the
    deliveries, is a sequence of small steps: commands do their work on the board, and notices are taken
    out of the outbox one at a time. What every step keeps holds at every moment of every run, also inside
    a delivery. -/

namespace HeadUnit

theorem Outbox.deliverAll_induct {ι σ : Type} {c : Courier ι σ} {P : Outbox ι → σ → Prop}
    (step : ∀ i rest o s, o.queue = i :: rest → P o s →
      P (c.deliver i { o with queue := rest } s).1 (c.deliver i { o with queue := rest } s).2)
    {o : Outbox ι} {s : σ} (h : P o s) : P (deliverAll c o s).1 (deliverAll c o s).2 := by
  fun_induction deliverAll c o s with
  | case1 => exact h
  | case2 o s i rest waiting next ih => exact ih (step i rest o s waiting h)

namespace Session

/-- One step of a session. Only the commands that are `allowed` are given. -/
inductive Step (allowed : Command → Prop) : Session → Session → Prop
  | enter (c : Command) (h : allowed c) (s : Session) : Step allowed s (s.enter c).1
  /-- A command from inside a delivery is entered in the log. -/
  | note (c : Command) (r : Response) (s : Session) :
      Step allowed s { s with host := s.host.noteInside c r }
  /-- The host receives the first notice, and may change its plans. -/
  | receive {s : Session} {n : Notice} {rest : List Notice} (waiting : s.outbox.queue = n :: rest)
      (reactions : List Reaction) :
      Step allowed s
        { s with
          outbox := { s.outbox with queue := rest }
          host := { s.host.receive n with reactions } }
  /-- An activation request could not be sent. -/
  | unsent (id : CorrelationId) (s : Session) : Step allowed s { s with board := s.board.forget id }
  /-- A drain begins or ends. -/
  | guard (on : Bool) (s : Session) :
      Step allowed s { s with outbox := { s.outbox with draining := on } }

theorem Step.mono {allowed allowed' : Command → Prop} (weaker : ∀ c, allowed c → allowed' c) {s t : Session}
    (hs : Step allowed s t) : Step allowed' s t := by
  cases hs with
  | enter c h s => exact .enter c (weaker c h) s
  | note c r s => exact .note c r s
  | receive waiting reactions => exact .receive waiting reactions
  | unsent id s => exact .unsent id s
  | guard on s => exact .guard on s

abbrev Steps (allowed : Command → Prop) : Session → Session → Prop := Relation.ReflTransGen (Step allowed)

/-- The session at the beginning of a command: the log starts afresh. -/
def opened (s : Session) : Session := { s with host := { s.host with log := [] } }

/-- The host reacts with allowed commands only. -/
def Reacts (allowed : Command → Prop) (rs : List Reaction) : Prop := ∀ r ∈ rs, ∀ c ∈ r.commands, allowed c

section Steps
variable {allowed : Command → Prop} {s t : Session}

/-- Who plans no reaction gives no command. -/
theorem Reacts.of_eq_nil {rs : List Reaction} (none : rs = []) : Reacts allowed rs := by
  rw [none]
  exact fun r hr => by cases hr

theorem useFirst_commands {rs : List Reaction} (h : Reacts allowed rs) (n : Notice) :
    (∀ c ∈ (Reaction.useFirst n rs).1, allowed c) ∧ Reacts allowed (Reaction.useFirst n rs).2 := by
  induction rs with
  | nil => exact ⟨fun _ hc => (by cases hc), h⟩
  | cons r rs ih =>
    have hr := h r List.mem_cons_self
    have hrs : Reacts allowed rs := fun r' hr' => h r' (List.mem_cons_of_mem _ hr')
    unfold Reaction.useFirst
    split
    · refine ⟨hr, fun r' hr' => ?_⟩
      rcases List.mem_cons.mp hr' with rfl | hr'
      · exact hr
      · exact hrs r' hr'
    · refine ⟨(ih hrs).1, fun r' hr' => ?_⟩
      rcases List.mem_cons.mp hr' with rfl | hr'
      · exact hr
      · exact (ih hrs).2 r' hr'

theorem foldl_enterInside_steps {cs : List Command} (h : ∀ c ∈ cs, allowed c) (s : Session) :
    Steps allowed s (cs.foldl enterInside s) := by
  induction cs generalizing s with
  | nil => exact .refl
  | cons c cs ih =>
    have first : Steps allowed s (s.enterInside c) :=
      (Relation.ReflTransGen.single (.enter c (h c List.mem_cons_self) s)).tail (.note c _ _)
    exact first.trans (ih (fun c' hc' => h c' (List.mem_cons_of_mem _ hc')) _)

@[simp] theorem enter_settings (c : Command) (s : Session) : (s.enter c).1.settings = s.settings := by
  cases c with
  | setPolicy p =>
    simp only [enter]
    split <;> rfl
  | _ => rfl

theorem run_settings (c : Command) (s : Session) : (s.run c).1.settings = s.settings := enter_settings c s.opened

theorem foldl_enterInside_settings (cs : List Command) (s : Session) :
    (cs.foldl enterInside s).settings = s.settings := by
  induction cs generalizing s with
  | nil => rfl
  | cons c cs ih =>
    rw [List.foldl_cons, ih]
    exact enter_settings c s

/-- The session in which a delivery is made. -/
def ofScene (settings : Settings) (o : Outbox Notice) (x : Scene) : Session :=
  { settings, board := x.board, outbox := o, host := x.host }

/-- A delivery is a sequence of steps: the host receives the notice, then its commands are carried out,
    and a request that could not be sent is forgotten. -/
theorem deliver_steps {settings : Settings} {n : Notice} {rest : List Notice} {o : Outbox Notice} {x : Scene}
    (waiting : o.queue = n :: rest) (reacts : Reacts allowed x.host.reactions) :
    Steps allowed (ofScene settings o x)
      (ofScene settings (deliver settings n { o with queue := rest } x).1
        (deliver settings n { o with queue := rest } x).2) := by
  let received : Session :=
    { settings
      board := x.board
      outbox := { o with queue := rest }
      host := { x.host.receive n with reactions := (Reaction.useFirst n x.host.reactions).2 } }
  let done := (Reaction.useFirst n x.host.reactions).1.foldl enterInside received
  have receive : Steps allowed (ofScene settings o x) received := .single (.receive waiting _)
  have react : Steps allowed received done := foldl_enterInside_steps (useFirst_commands reacts n).1 _
  have same : done.settings = settings := foldl_enterInside_settings _ _
  have kept : ofScene settings done.outbox ⟨done.board, done.host⟩ = done := by
    rw [← same]
    rfl
  have sent : Steps allowed done (ofScene settings done.outbox ⟨done.board, done.host⟩) := by
    rw [kept]
  refine (receive.trans react).trans ?_
  cases n with
  | activate r =>
    cases sends : x.host.sends (.activate r) with
    | true =>
      simp only [deliver, sends, ↓reduceIte]
      exact sent
    | false =>
      simp only [deliver, sends, Bool.false_eq_true, ↓reduceIte]
      exact sent.tail (.unsent r.id _)
  | _ => exact sent

/-- Emptying the outbox is a sequence of steps, and the host plans nothing new. -/
theorem flush_steps (reacts : Reacts allowed s.host.reactions) :
    Steps allowed s s.flush ∧ Reacts allowed s.flush.host.reactions := by
  cases under : s.outbox.draining with
  | true =>
    rw [flush_of_draining under]
    exact ⟨.refl, reacts⟩
  | false =>
    have drained := Outbox.deliverAll_induct (c := courier s.settings)
      (P := fun o x => Steps allowed s (ofScene s.settings o x) ∧ Reacts allowed x.host.reactions)
      (fun n rest o x waiting ⟨steps, reacts⟩ => by
        refine ⟨steps.trans (deliver_steps waiting reacts), ?_⟩
        simp only [courier, deliver, foldl_enterInside_reactions]
        exact (useFirst_commands reacts n).2)
      (o := { s.outbox with draining := true }) (s := ⟨s.board, s.host⟩)
      ⟨.single (.guard true s), reacts⟩
    rw [flush, Outbox.drain_of_free under]
    exact ⟨drained.1.tail (.guard false _), drained.2⟩

/-- Whatever the command, the host keeps to its plans. -/
theorem Reacts.enter (reacts : Reacts allowed s.host.reactions) (c : Command) :
    Reacts allowed (s.opened.enter c).1.host.reactions := by
  rw [enter_reactions]
  exact reacts

/-- A command with all its deliveries is a sequence of steps, and the host plans nothing new. -/
theorem run_steps {c : Command} (h : allowed c) (reacts : Reacts allowed s.host.reactions) :
    Steps allowed s.opened (s.run c).1 ∧ Reacts allowed (s.run c).1.host.reactions := by
  obtain ⟨delivered, reacts'⟩ := flush_steps (reacts.enter c)
  exact ⟨Relation.ReflTransGen.head (.enter c h _) delivered, reacts'⟩

end Steps

/-! ### Reachable sessions -/

/-- A session at any moment of its life, also inside a delivery: it began with an empty head unit, in the
    hands of any host. -/
inductive Reachable : Session → Prop
  | fresh (settings : Settings) (host : Host) : Reachable { settings, host }
  | opened {s : Session} (h : Reachable s) : Reachable s.opened
  | step {s t : Session} (h : Reachable s) (hs : Step (fun _ => True) s t) : Reachable t

namespace Reachable
variable {s t : Session}

theorem steps (h : Reachable s) (hs : Steps (fun _ => True) s t) : Reachable t := by
  induction hs with
  | refl => exact h
  | tail _ hs ih => exact ih.step hs

theorem run (h : Reachable s) (c : Command) : Reachable (s.run c).1 :=
  h.opened.steps (run_steps trivial fun _ _ _ _ => trivial).1

theorem runs (h : Reachable s) (cs : List Command) :
    Reachable (cs.foldl (fun s c => (s.run c).1) s) := by
  induction cs generalizing s with
  | nil => exact h
  | cons c cs ih => exact ih (h.run c)

/-- The board of a reachable session is one that turns bring about. -/
theorem board (h : Reachable s) : s.board.Reachable := by
  induction h with
  | fresh settings host => exact .empty
  | opened _ ih => exact ih
  | step _ hs ih =>
    cases hs with
    | enter c _ s =>
      cases c with
      | call c => exact ih.turn _ _ _
      | expire => exact ih.expire _ _
      | setPolicy p =>
        simp only [enter]
        split <;> exact ih
      | _ => exact ih
    | note c r s => exact ih
    | receive waiting reactions => exact ih
    | unsent id s => exact ih.unsent id
    | guard on s => exact ih

end Reachable

end Session

end HeadUnit
