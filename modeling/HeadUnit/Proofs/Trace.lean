import HeadUnit.Proofs.History
import HeadUnit.Proofs.Told
import Mathlib.Data.List.Chain

/-! What an application is told from its registration on. Each turn queues the news of an application in one
    piece: the status, the change of level and, at `NONE`, the reset. The pieces of successive turns fit
    together, each starting where the one before it ended, because a record notes what was queued last. A turn
    that moves an application several times shows only where it ends up. -/

namespace HeadUnit

/-! ### Changes -/

/-- A change of what an application is presented. -/
structure Change where
  app : AppId
  old : Status
  new : Status

namespace Change

def notices (x : Change) : List Notice :=
  [.status x.app x.new, .level x.app x.old.level x.new.level] ++
    if x.new.level = .absent then [.reset x.app] else []

/-- The changes of an application from one status to the next. -/
def successive (app : AppId) : Status → List Status → List Change
  | _, [] => []
  | old, new :: later => ⟨app, old, new⟩ :: successive app new later

theorem successive_concat (app : AppId) (old : Status) (told : List Status) (new : Status) :
    successive app old (told ++ [new]) = successive app old told ++ [⟨app, told.getLastD old, new⟩] := by
  induction told generalizing old with
  | nil => rfl
  | cons s told ih => rw [List.cons_append, successive, ih, List.getLastD_cons, successive, List.cons_append]

end Change

/-! ### The news of one application -/

namespace Notice
variable {app : AppId} {old new : Status}

/-- The news among some notices that an application is told. -/
def newsFor (app : AppId) (ns : List Notice) : List Notice := ns.filter fun n => n.isNews && n.app = app

theorem newsFor_eq (ns : List Notice) : newsFor app ns = (ns.filter isNews).filter (·.app = app) := by
  rw [newsFor, List.filter_filter]
  exact List.filter_congr fun n _ => Bool.and_comm _ _

theorem newsFor_append (ns ms : List Notice) : newsFor app (ns ++ ms) = newsFor app ns ++ newsFor app ms :=
  List.filter_append ..

theorem ofChange_of_changed (changed : old.sameAxes new = false) :
    ofChange app old new = (Change.mk app old new).notices :=
  if_neg (by simp [changed])

theorem ofChange_refl (app : AppId) (s : Status) : ofChange app s s = [] := if_pos s.sameAxes_refl

theorem newsFor_flatMap_news_of_ne {a : Bool} {apps : List AppRecord} (others : ∀ r ∈ apps, r.app ≠ app) :
    newsFor app (apps.flatMap (·.news a)) = [] := by
  refine List.filter_eq_nil_iff.mpr fun n hn => ?_
  obtain ⟨r, hr, owed⟩ := List.mem_flatMap.mp hn
  have about : n.app = r.app := (isNews_of_mem_ofChange owed).2
  simp [about, others r hr]

end Notice

namespace AppRecord
variable {a : Bool} {r : AppRecord}

theorem news_of_hasNews (h : r.hasNews a = true) : r.news a = (Change.mk r.app r.told (r.effective a)).notices :=
  Notice.ofChange_of_changed (hasNews_iff.mp h)

/-- What an application is owed leads from what it was told before to what it is noted to be told. -/
theorem news_eq_ofChange_told (a : Bool) (r : AppRecord) :
    r.news a = Notice.ofChange r.app r.told (r.informed a).told := by
  unfold informed
  split
  · rfl
  · next h => rw [news_of_not_hasNews h, Notice.ofChange_refl]

theorem informed_told_of_sameAxes (h : r.told.sameAxes (r.informed a).told = true) : (r.informed a).told = r.told := by
  unfold informed at h ⊢
  split
  · next owed =>
    have changed := hasNews_iff.mp owed
    rw [if_pos owed, withTold, changed] at h
    cases h
  · rfl

theorem flatMap_news_filter (a : Bool) (apps : List AppRecord) :
    (apps.filter (·.hasNews a)).flatMap (·.news a) = apps.flatMap (·.news a) := by
  induction apps with
  | nil => rfl
  | cons r apps ih =>
    rw [List.filter_cons, List.flatMap_cons]
    split
    · rw [List.flatMap_cons, ih]
    · next h => rw [ih, news_of_not_hasNews h, List.nil_append]

end AppRecord

namespace Roster

/-- Where no number stands twice, the news for an application are those that it is owed. -/
theorem Distinct.newsFor_flatMap_news {apps : Roster} (h : apps.Distinct) {r : AppRecord} (mem : r ∈ apps)
    (a : Bool) : Notice.newsFor r.app (apps.flatMap (·.news a)) = r.news a := by
  obtain ⟨before, after, rfl, hbefore, hafter⟩ := h.split mem
  have own : Notice.newsFor r.app (r.news a) = r.news a := by
    refine List.filter_eq_self.mpr fun n hn => ?_
    obtain ⟨isNews, about⟩ := Notice.isNews_of_mem_ofChange hn
    simp [isNews, about]
  rw [List.flatMap_append, List.flatMap_cons, Notice.newsFor_append, Notice.newsFor_append, own,
    Notice.newsFor_flatMap_news_of_ne hbefore, Notice.newsFor_flatMap_news_of_ne hafter, List.nil_append,
    List.append_nil]

end Roster

/-! ### Turns -/

/-- What a turn queues for each application leads from what it had been told to what it is noted to be told. -/
structure Turn.Reports (apps : Roster) (t : Turn) : Prop where
  registered : ∀ s ∈ t.board.apps, ∃ r ∈ apps, r.app = s.app ∧
    Notice.newsFor s.app t.notices = Notice.ofChange s.app r.told s.told ∧
    (r.told.sameAxes s.told = true → s.told = r.told)
  others : ∀ app, (∀ s ∈ t.board.apps, s.app ≠ app) → Notice.newsFor app t.notices = []

/-- The news of a turn are those of changes of different applications, in ascending order, as many as it
    replies. -/
def Turn.Batched (t : Turn) : Prop :=
  ∃ changes : List Change, t.notices.filter Notice.isNews = changes.flatMap Change.notices ∧
    changes.Pairwise (fun x y => x.app.number.toNat < y.app.number.toNat) ∧
    (∀ n, t.reply = .applied n → changes.length = n) ∧ ((∀ n, t.reply ≠ .applied n) → changes = [])

namespace Turn.Tidings
variable {a : Bool} {apps : Roster} {t : Turn}

theorem reports (h : Tidings a apps t) : t.Reports apps := by
  cases h with
  | settled b ordered kept board reply news =>
    constructor
    · intro s hs
      rw [board] at hs
      obtain ⟨s₀, hs₀, rfl⟩ := List.mem_map.mp hs
      obtain ⟨r, hr, eapp, etold⟩ := kept s₀ hs₀
      refine ⟨r, hr, eapp.trans (AppRecord.informed_app a s₀).symm, ?_, ?_⟩
      · rw [Notice.newsFor_eq, news, ← Turn.Tidings.filter_isNews_settle, ← Notice.newsFor_eq,
          AppRecord.informed_app, etold, ← AppRecord.news_eq_ofChange_told]
        exact ordered.distinct.newsFor_flatMap_news hs₀ a
      · rw [etold]
        exact AppRecord.informed_told_of_sameAxes
    · intro app absent
      rw [Notice.newsFor_eq, news, ← Turn.Tidings.filter_isNews_settle, ← Notice.newsFor_eq]
      refine Notice.newsFor_flatMap_news_of_ne fun r hr => ?_
      rw [board] at absent
      rw [← AppRecord.informed_app a r]
      exact absent _ (List.mem_map_of_mem hr)
  | silent kept reply news =>
    constructor
    · intro s hs
      obtain ⟨r, hr, eapp, etold⟩ := kept s hs
      refine ⟨r, hr, eapp, ?_, fun _ => etold.symm⟩
      rw [Notice.newsFor_eq, news, etold, Notice.ofChange_refl]
      rfl
    · intro app _
      rw [Notice.newsFor_eq, news]
      rfl

theorem batched (h : Tidings a apps t) : t.Batched := by
  cases h with
  | settled b ordered kept board reply news =>
    let owed := b.apps.filter (·.hasNews a)
    refine ⟨owed.map fun r => ⟨r.app, r.told, r.effective a⟩, ?_, ?_, ?_, fun none => absurd reply (none _)⟩
    · rw [news, List.flatMap_map]
      refine (AppRecord.flatMap_news_filter a b.apps).symm.trans (List.flatMap_congr fun r hr => ?_)
      exact AppRecord.news_of_hasNews (List.mem_filter.mp hr).2
    · exact List.pairwise_map.mpr (List.Pairwise.filter _ ordered)
    · intro n applied
      rw [reply] at applied
      cases applied
      rw [List.length_map, ← List.countP_eq_length_filter]
  | silent kept reply news =>
    exact ⟨[], news, .nil, fun n applied => (reply n applied).symm, fun _ => rfl⟩

end Turn.Tidings

/-! ### Registrations -/

/-- The news lead from nothing, change by change, to what the roster notes that the application was told. -/
def Roster.Leads (app : AppId) (ns : List Notice) (apps : Roster) : Prop :=
  ∃ told : List Status, ns = (Change.successive app .initial told).flatMap Change.notices ∧
    List.IsChain (fun old new => old.sameAxes new = false) (.initial :: told) ∧
    ∀ s ∈ apps, s.app = app → s.told = told.getLastD .initial

namespace Roster.Leads
variable {app : AppId} {ns : List Notice} {apps : Roster} {t : Turn}

theorem turn (h : apps.Leads app ns) (reports : t.Reports apps) (ordered : t.board.apps.Ordered) :
    t.board.apps.Leads app (ns ++ Notice.newsFor app t.notices) := by
  obtain ⟨told, rfl, chain, noted⟩ := h
  by_cases there : ∃ s ∈ t.board.apps, s.app = app
  · obtain ⟨s, hs, rfl⟩ := there
    have alone : ∀ s' ∈ t.board.apps, s'.app = s.app → s'.told = s.told := fun s' hs' e =>
      congrArg AppRecord.told (ordered.distinct.eq hs' hs e)
    obtain ⟨r, hr, eapp, news, same⟩ := reports.registered s hs
    rw [noted r hr eapp] at news same
    rw [news]
    cases changed : (told.getLastD .initial).sameAxes s.told with
    | true =>
      -- Nothing was queued, so the record still notes the last of the old ones.
      refine ⟨told, ?_, chain, fun s' hs' e => (alone s' hs' e).trans (same changed)⟩
      rw [same changed, Notice.ofChange_refl, List.append_nil]
    | false =>
      refine ⟨told ++ [s.told], ?_, ?_, fun s' hs' e => (alone s' hs' e).trans (by simp)⟩
      · rw [Change.successive_concat, List.flatMap_append, Notice.ofChange_of_changed changed]
        simp
      · rw [← List.cons_append]
        refine chain.append (List.isChain_singleton _) fun old last new first => ?_
        obtain rfl := Option.some.inj first
        rw [List.getLast?_cons, ← List.getLastD_eq_getLast?] at last
        obtain rfl := Option.some.inj last
        exact changed
  · refine ⟨told, ?_, chain, fun s hs e => absurd ⟨s, hs, e⟩ there⟩
    rw [reports.others app fun s hs e => there ⟨s, hs, e⟩, List.append_nil]

end Roster.Leads

namespace History
variable {before since later : History} {x : Call × Turn} {app : AppId}

def registers (app : AppId) (x : Call × Turn) : Bool := (x.1.newcomer? x.2.reply).any fun p => p.app = app

def newsFor (app : AppId) (turns : History) : List Notice := turns.flatMap fun x => Notice.newsFor app x.2.notices

theorem newsFor_concat (turns : History) (x : Call × Turn) :
    newsFor app (turns ++ [x]) = newsFor app turns ++ Notice.newsFor app x.2.notices := by
  simp [newsFor]

theorem Played.batched (h : Played (before ++ x :: later)) : x.2.Batched := by
  obtain ⟨b, c, id, reachable, -, turn⟩ := h.split
  rw [turn]
  exact ((b.perform_effect c id x.1).tidings reachable.ordered).batched

/-- From the turn that registers an application on, its news lead to what is noted that it was told. -/
theorem Played.leads (h : Played (before ++ x :: (since ++ later))) (new : registers app x = true)
    (stays : ∀ y ∈ since, registers app y = false) :
    Roster.Leads app (newsFor app (x :: since)) ((before ++ x :: since).roster (before ++ x :: since).length) := by
  induction since using List.reverseRecOn generalizing later with
  | nil =>
    -- Only the new record bears the number, and it was told nothing.
    obtain ⟨b, c, id, reachable, -, turn⟩ := h.split
    have effect := b.perform_effect c id x.1
    rw [registers, turn] at new
    have nothing : Roster.Leads app [] ((x.1.newcomer? (b.perform c id x.1).reply).elim b b.enrol).apps := by
      refine ⟨[], rfl, List.isChain_singleton _, fun r hr e => ?_⟩
      rcases effect.origin hr with ⟨-, told⟩ | ⟨old, -⟩
      · exact told
      · rw [e, new] at old
        cases old
    have led := nothing.turn (effect.tidings reachable.ordered).reports (effect.ordered reachable.ordered)
    rw [roster_concat_length, newsFor, turn]
    simpa [turn] using led
  | append_singleton since y ih =>
    have sooner : Played (before ++ x :: (since ++ (y :: later))) := by simpa using h
    have now : Played ((before ++ x :: since) ++ y :: later) := by simpa using h
    have earlier := ih sooner fun z hz => stays z (List.mem_append_left _ hz)
    have last : registers app y = false := stays y (List.mem_append_right _ List.mem_cons_self)
    obtain ⟨b, c, id, reachable, apps, turn⟩ := now.split
    have effect := b.perform_effect c id y.1
    rw [registers, turn] at last
    rw [← apps] at earlier
    obtain ⟨told, news, chain, noted⟩ := earlier
    -- A turn that registers another application may start from a larger roster than the one that was left.
    have before' : Roster.Leads app (newsFor app (x :: since))
        ((y.1.newcomer? (b.perform c id y.1).reply).elim b b.enrol).apps := by
      refine ⟨told, news, chain, fun r hr e => ?_⟩
      rcases effect.origin hr with ⟨new, -⟩ | ⟨-, hr⟩
      · rw [e, last] at new
        cases new
      · exact noted r hr e
    have led := before'.turn (effect.tidings reachable.ordered).reports (effect.ordered reachable.ordered)
    rw [← turn] at led
    rw [← List.cons_append, ← List.append_assoc, roster_concat_length, newsFor_concat]
    exact led

end History

/-! ### Sessions -/

namespace Log
variable {app : AppId}

theorem newsFor_queued (log : Log) : Notice.newsFor app log.queued = History.newsFor app log.turns := by
  rw [queued_eq_turns, Notice.newsFor, List.filter_flatMap]
  rfl

end Log

namespace Session

/-- Over any run, whatever the flag, the news of each turn are those of as many changes as it replies, of
    different applications in ascending order; and from one registration of an application to the next, its
    news are those of successive changes that begin with nothing, each to other axes. -/
theorem news_successive (settings : Settings) (host : Host) (cs : List Command) :
    let log := (runAll cs { settings, host }).2
    (∀ call t, .turn call t ∈ log → ∃ changes : List Change,
        t.notices.filter Notice.isNews = changes.flatMap Change.notices ∧
          changes.Pairwise (fun x y => x.app.number.toNat < y.app.number.toNat) ∧
          (∀ n, t.reply = .applied n → changes.length = n) ∧ ((∀ n, t.reply ≠ .applied n) → changes = [])) ∧
      ∀ before e since later app, log = before ++ e :: (since ++ later) → e.registers app = true →
        (∀ e' ∈ since, e'.registers app = false) → ∃ told : List Status,
          Notice.newsFor app (Log.queued (e :: since)) =
              (Change.successive app .initial told).flatMap Change.notices ∧
            List.IsChain (fun old new => old.sameAxes new = false) (.initial :: told) := by
  intro log
  have played : History.Played log.turns := played_runAll settings host cs
  refine ⟨fun call t taken => ?_, fun before e since later app run new stays => ?_⟩
  · have mem : (call, t) ∈ log.turns := List.mem_filterMap.mpr ⟨.turn call t, taken, rfl⟩
    obtain ⟨earlier, after, split⟩ := List.append_of_mem mem
    have played' : History.Played (earlier ++ (call, t) :: after) := split ▸ played
    exact played'.batched
  · cases e with
    | turn call t =>
      have split : log.turns = Log.turns before ++ (call, t) :: (Log.turns since ++ Log.turns later) := by
        rw [run]
        simp [Log.turns, List.filterMap_append, LogEntry.turn?]
      have others : ∀ y ∈ Log.turns since, History.registers app y = false := by
        intro y hy
        obtain ⟨e', he', taken⟩ := List.mem_filterMap.mp hy
        have other := stays e' he'
        cases e' with
        | turn call' t' =>
          cases taken
          exact other
        | _ => cases taken
      obtain ⟨told, news, chain, -⟩ := History.Played.leads (x := (call, t)) (split ▸ played) new others
      exact ⟨told, (Log.newsFor_queued _).trans news, chain⟩
    | _ => cases new

/-- Speech silences the radio, and attenuates it once the head unit can. When the speech ends the radio gets the
    display and loses it to the navigation in the same turn: it is told only that it is limited. Then it leaves
    and registers again. -/
theorem news_successive_two_registrations :
    let radio : AppId := ⟨1⟩
    let navi : AppId := ⟨2⟩
    let host : Host := { policy? := some {} }
    let playing : Status := ⟨.full, .audible, .notStreamable, .main, .regular⟩
    let cs : List Command :=
      [.call (.register ⟨radio, ⟨11⟩, { media := true }⟩ .full), .call (.event .speechStarted),
        .setPolicy { attenuates := true }, .call (.register ⟨navi, ⟨12⟩, { navigation := true }⟩ .background),
        .call (.request radio { playing with context := .menu } false),
        .call (.requestAxes navi .full .audible .streamable .main), .call (.event .speechStopped),
        .call (.requestLevel radio .absent), .call (.unregister radio),
        .call (.register ⟨radio, ⟨11⟩, {}⟩ .limited)]
    let log := (runAll cs { host }).2
    let period : Log := log.take 23
    let told : List Status :=
      [playing, { playing with audio := .notAudible, layer := .overlay .speech },
        { playing with audio := .attenuated, layer := .overlay .speech },
        { playing with level := .limited, context := .menu },
        ⟨.absent, .notAudible, .notStreamable, .menu, .regular⟩]
    Notice.newsFor radio period.queued = (Change.successive radio .initial told).flatMap Change.notices ∧
      ∃ told : List Status,
        Notice.newsFor radio period.queued = (Change.successive radio .initial told).flatMap Change.notices ∧
          List.IsChain (fun old new => old.sameAxes new = false) (.initial :: told) := by
  intro radio navi host playing cs log period told
  have first : (log.head?.any fun e => e.registers radio) = true := by
    subst period log cs playing host navi radio
    cbv
  have since : ((period.drop 1).all fun e => !e.registers radio) = true := by
    subst period log cs playing host navi radio
    cbv
  have news : Notice.newsFor radio period.queued = (Change.successive radio .initial told).flatMap Change.notices := by
    subst told period log cs playing host navi radio
    cbv
  obtain ⟨e, head, registers⟩ := (Option.any_eq_true _ _).mp first
  obtain ⟨rest, run⟩ := List.head?_eq_some_iff.mp head
  have begins : period = e :: rest.take 22 := by rw [show period = log.take 23 from rfl, run]; rfl
  have stays : ∀ e' ∈ rest.take 22, e'.registers radio = false := by
    rw [begins] at since
    simpa using since
  have split : log = [] ++ e :: (rest.take 22 ++ rest.drop 22) := by rw [List.take_append_drop]; exact run
  refine ⟨news, ?_⟩
  rw [begins]
  exact (news_successive {} host cs).2 [] e _ _ radio split registers stays

end Session

end HeadUnit
