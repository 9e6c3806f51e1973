import HeadUnit.Board
import Mathlib.Data.List.Permutation

/-! What arbitration does to each application. In a roster without a number twice, carrying a decision
    out changes every record on its own: the asker takes the status that it asked for, and any other
    application what the request leaves to it. Only regular statuses change. -/

namespace HeadUnit

/-! ### The level left by a request -/

namespace Level
variable {asker c : Capabilities} {asked held : Level}

/-- A request leaves the level as it is, sends it to the background, or takes the display from an
    application with audio. -/
theorem leftBy_cases (asker : Capabilities) (asked : Level) (c : Capabilities) (held : Level) :
    leftBy asker asked c held = held ∨ leftBy asker asked c held = .background ∨
      (held = .full ∧ c.isAudio = true ∧ leftBy asker asked c held = .limited) := by
  unfold leftBy
  split
  · exact Or.inr (Or.inl rfl)
  · split
    · next h =>
      have hheld : held = .full := by simp at h; exact h.2
      split
      · next ha => exact Or.inr (Or.inr ⟨hheld, ha, rfl⟩)
      · exact Or.inr (Or.inl rfl)
    · exact Or.inl rfl

theorem full_of_leftBy (h : leftBy asker asked c held = .full) : held = .full := by
  rcases leftBy_cases asker asked c held with e | e | ⟨-, -, e⟩
  · exact e ▸ h
  · rw [e] at h
    cases h
  · rw [e] at h
    cases h

theorem isForeground_of_leftBy (h : (leftBy asker asked c held).isForeground = true) :
    held.isForeground = true := by
  rcases leftBy_cases asker asked c held with e | e | ⟨rfl, -, -⟩
  · exact e ▸ h
  · rw [e] at h
    cases h
  · rfl

theorem limited_of_leftBy (h : leftBy asker asked c held = .limited) :
    held = .limited ∨ (held = .full ∧ c.isAudio = true) := by
  rcases leftBy_cases asker asked c held with e | e | ⟨hf, ha, -⟩
  · exact Or.inl (e ▸ h)
  · rw [e] at h
    cases h
  · exact Or.inr ⟨hf, ha⟩

/-- A request for the display leaves it to no other application. -/
theorem leftBy_full_ne_full : leftBy asker .full c held ≠ .full := by
  intro h
  obtain rfl := full_of_leftBy h
  revert h
  unfold leftBy
  split
  · simp
  · simp only [decide_true, Bool.and_self, ↓reduceIte]
    split <;> simp

/-- A foreground request leaves nothing of the foreground to an audio application of the asker's class. -/
theorem leftBy_of_audio (shares : asker.sharesClass c = true) (audio : asker.isAudio = true)
    (h : asked.isForeground = true) : (leftBy asker asked c held).isForeground = false := by
  have hc : c.isAudio = true := Capabilities.isAudio_eq_of_sharesClass shares ▸ audio
  cases hf : held.isForeground
  · cases hl : (leftBy asker asked c held).isForeground
    · rfl
    · rw [isForeground_of_leftBy hl] at hf
      cases hf
  · have e : leftBy asker asked c held = .background := by simp [leftBy, shares, audio, h, hc, hf]
    rw [e]
    rfl

/-- A request for `LIMITED` leaves no application of the asker's class there. -/
theorem leftBy_limited_ne_limited (shares : asker.sharesClass c = true) :
    leftBy asker .limited c held ≠ .limited := by
  intro h
  unfold leftBy at h
  split at h
  · cases h
  · next hn =>
    simp only [reduceCtorEq, decide_false, Bool.false_and, Bool.false_eq_true, ↓reduceIte] at h
    simp [h, shares, isForeground] at hn

/-- What a request has left, the same request leaves again. -/
theorem leftBy_leftBy : leftBy asker asked c (leftBy asker asked c held) = leftBy asker asked c held := by
  rcases leftBy_cases asker asked c held with e | e | ⟨rfl, audio, e⟩
  · rw [e, e]
  · rw [e]
    simp [leftBy, isForeground]
  · rw [e]
    -- The display was lost to an asker of another class, who leaves a limited application alone.
    cases shares : asker.sharesClass c with
    | false => simp [leftBy, shares]
    | true =>
      have asker_audio : asker.isAudio = true := Capabilities.isAudio_eq_of_sharesClass shares ▸ audio
      have background : asked.isForeground = false := by
        by_contra foreground
        have left : (leftBy asker asked c .full).isForeground = false :=
          leftBy_of_audio shares asker_audio (by simpa using foreground)
        rw [e] at left
        cases left
      simp [leftBy, background]

end Level

/-! ### One record -/

def AppRecord.assigned (r : AppRecord) (a : Assignment) : AppRecord :=
  if r.app = a.1 then r.withRegular a.2 else r

/-- The record of an application after a request of `asker`. -/
def AppRecord.contend (asker : AppRecord) (asked : Status) (r : AppRecord) : AppRecord :=
  if r.app = asker.app then r.withRegular asked
  else (Status.demotion? asker.capabilities asked r.capabilities r.regular).elim r (r.withRegular ·)

namespace AppRecord

theorem assigned_of_ne {r : AppRecord} {a : Assignment} (h : a.1 ≠ r.app) : r.assigned a = r :=
  if_neg (Ne.symm h)

@[simp] theorem foldl_assigned_app (as : List Assignment) (r : AppRecord) : (as.foldl assigned r).app = r.app := by
  induction as generalizing r with
  | nil => rfl
  | cons a as ih =>
    rw [List.foldl_cons, ih, assigned]
    split <;> rfl

theorem foldl_assigned_of_ne {as : List Assignment} {r : AppRecord} (h : ∀ a ∈ as, a.1 ≠ r.app) :
    as.foldl assigned r = r := by
  induction as with
  | nil => rfl
  | cons a as ih =>
    rw [List.foldl_cons, assigned_of_ne (h a List.mem_cons_self)]
    exact ih fun b hb => h b (List.mem_cons_of_mem _ hb)

variable {asker r : AppRecord} {asked : Status}

theorem contend_of_eq (h : r.app = asker.app) : contend asker asked r = r.withRegular asked := if_pos h

theorem contend_of_ne (h : r.app ≠ asker.app) : contend asker asked r =
    (Status.demotion? asker.capabilities asked r.capabilities r.regular).elim r (r.withRegular ·) := if_neg h

/-- Arbitration changes the regular status and nothing else. -/
theorem contend_eq (asker : AppRecord) (asked : Status) (r : AppRecord) :
    contend asker asked r = { r with regular := (contend asker asked r).regular } := by
  by_cases h : r.app = asker.app
  · rw [contend_of_eq h]
    rfl
  · rw [contend_of_ne h]
    cases Status.demotion? asker.capabilities asked r.capabilities r.regular <;> rfl

@[simp] theorem contend_profile : (contend asker asked r).profile = r.profile := by rw [contend_eq]

@[simp] theorem contend_app : (contend asker asked r).app = r.app := congrArg Profile.app contend_profile

@[simp] theorem contend_capabilities : (contend asker asked r).capabilities = r.capabilities :=
  congrArg Profile.capabilities contend_profile

@[simp] theorem contend_overlays : (contend asker asked r).overlays = r.overlays := by rw [contend_eq]

@[simp] theorem contend_told : (contend asker asked r).told = r.told := by rw [contend_eq]

/-- Of the asker only the profile counts, and of the other its profile and its regular status. -/
theorem contend_regular_congr {asker' r' : AppRecord} (ask : asker'.profile = asker.profile)
    (profile : r'.profile = r.profile) (regular : r'.regular = r.regular) :
    (contend asker' asked r').regular = (contend asker asked r).regular := by
  unfold contend app capabilities
  rw [ask, profile, regular]
  split
  · rfl
  · cases Status.demotion? asker.profile.capabilities asked r.profile.capabilities r.regular with
    | none => exact regular
    | some s => rfl

theorem contend_congr_asker {asker' : AppRecord} (ask : asker'.profile = asker.profile) :
    contend asker' asked r = contend asker asked r := by
  rw [contend_eq, contend_regular_congr ask rfl rfl, ← contend_eq]

theorem contend_eq_self_iff : contend asker asked r = r ↔ (contend asker asked r).regular = r.regular :=
  ⟨congrArg regular, fun same => by rw [contend_eq, same]⟩

theorem contend_level_of_ne (h : r.app ≠ asker.app) : (contend asker asked r).regular.level =
    Level.leftBy asker.capabilities asked.level r.capabilities r.regular.level := by
  rw [contend_of_ne h]
  simp only [Status.demotion?]
  split
  · next e => exact e.symm
  · simp only [Option.elim_some, withRegular, Status.onLayer, Status.demotedTo]
    split <;> rfl

/-- A change that arbitration does not see may as well be made after it. -/
theorem contend_comm {g : AppRecord → AppRecord} (profile : ∀ r, (g r).profile = r.profile)
    (regular : ∀ r, (g r).regular = r.regular) (keeps : ∀ r s, g { r with regular := s } = { g r with regular := s }) :
    contend (g asker) asked (g r) = g (contend asker asked r) :=
  calc contend (g asker) asked (g r)
    _ = { g r with regular := (contend asker asked r).regular } := by
      rw [contend_eq, contend_regular_congr (profile asker) (profile r) (regular r)]
    _ = g (contend asker asked r) := by rw [← keeps, ← contend_eq]

/-- Whoever has given way to a request does not have to again. -/
theorem demotion?_contend (h : r.app ≠ asker.app) : Status.demotion? asker.capabilities asked
    (contend asker asked r).capabilities (contend asker asked r).regular = none := by
  have level : (contend asker asked r).regular.level =
      Level.leftBy asker.capabilities asked.level r.capabilities r.regular.level := contend_level_of_ne h
  rw [Status.demotion?, contend_capabilities, level, Level.leftBy_leftBy]
  exact if_pos rfl

theorem contend_contend : contend asker asked (contend asker asked r) = contend asker asked r := by
  by_cases h : r.app = asker.app
  · rw [contend_of_eq h, contend_of_eq (show (r.withRegular asked).app = asker.app from h)]
    rfl
  · rw [contend_of_ne (show (contend asker asked r).app ≠ asker.app by rwa [contend_app]), demotion?_contend h]
    rfl

end AppRecord

/-! ### The roster -/

namespace Roster

/-- Decides a request and carries the decision out. A request of an application that is not in the
    roster changes nothing. -/
def arbitrate (target : AppId) (asked : Status) (apps : Roster) : Roster :=
  match apps.assignments target asked with
  | .ok as => apps.assign as
  | .error _ => apps

def Distinct (apps : Roster) : Prop := (apps.map AppRecord.app).Nodup

instance (apps : Roster) : Decidable apps.Distinct := inferInstanceAs (Decidable (List.Nodup _))

theorem Ordered.distinct {apps : Roster} (h : apps.Ordered) : apps.Distinct := by
  refine List.pairwise_map.mpr (List.Pairwise.imp ?_ h)
  intro r s lt e
  rw [e] at lt
  exact Nat.lt_irrefl _ lt

/-- A change that keeps the numbers keeps them distinct. -/
theorem Distinct.map {apps : Roster} (h : apps.Distinct) {f : AppRecord → AppRecord}
    (keeps : ∀ r, (f r).app = r.app) : Distinct (apps.map f) := by
  have same : AppRecord.app ∘ f = AppRecord.app := funext keeps
  rw [Distinct, List.map_map, same]
  exact h

theorem Distinct.eq {apps : Roster} (h : apps.Distinct) {r s : AppRecord} (hr : r ∈ apps) (hs : s ∈ apps)
    (e : r.app = s.app) : r = s := List.inj_on_of_nodup_map h hr hs e

theorem Distinct.record?_eq_some {apps : Roster} (h : apps.Distinct) {r : AppRecord} (mem : r ∈ apps) :
    apps.record? r.app = some r := by
  obtain ⟨s, hs⟩ := Option.isSome_iff_exists.mp (isSome_record?_of_mem mem)
  obtain ⟨hmem, app⟩ := record?_mem hs
  rw [hs, h.eq hmem mem app]

/-- The records on either side of a record belong to other applications. -/
theorem Distinct.split {apps : Roster} (h : apps.Distinct) {r : AppRecord} (mem : r ∈ apps) :
    ∃ before after, apps = before ++ r :: after ∧ (∀ s ∈ before, s.app ≠ r.app) ∧ ∀ s ∈ after, s.app ≠ r.app := by
  obtain ⟨before, after, rfl⟩ := List.append_of_mem mem
  simp only [Distinct, List.map_append, List.map_cons, List.nodup_append, List.nodup_cons] at h
  obtain ⟨-, ⟨hafter, -⟩, apart⟩ := h
  refine ⟨before, after, rfl, fun s hs e => ?_, fun s hs e => ?_⟩
  · exact apart s.app (List.mem_map_of_mem hs) r.app List.mem_cons_self e
  · exact hafter (List.mem_map.mpr ⟨s, hs, e⟩)

theorem assign_eq_map (as : List Assignment) (apps : Roster) :
    apps.assign as = apps.map fun r => as.foldl AppRecord.assigned r := by
  induction as generalizing apps with
  | nil => simp [assign]
  | cons a as ih =>
    have step : apps.assign (a :: as) = (apps.modify a.1 (·.withRegular a.2)).assign as := rfl
    rw [step, ih, modify, List.map_map]
    rfl

/-- The one assignment to an application among those that a request decides. -/
theorem foldl_assigned_demotions {apps : Roster} (distinct : apps.Distinct) {asker r : AppRecord}
    {asked : Status} (mem : r ∈ apps) (ne : r.app ≠ asker.app) :
    ((apps.filter (·.app ≠ asker.app)).filterMap fun s =>
        (Status.demotion? asker.capabilities asked s.capabilities s.regular).map fun t => (s.app, t)).foldl
      AppRecord.assigned r = AppRecord.contend asker asked r := by
  obtain ⟨before, after, rfl, hbefore, hafter⟩ := distinct.split mem
  -- The assignments to the records on either side name other applications.
  have others : ∀ l : List AppRecord, (∀ s ∈ l, s.app ≠ r.app) →
      ∀ a ∈ (l.filter (·.app ≠ asker.app)).filterMap fun s =>
        (Status.demotion? asker.capabilities asked s.capabilities s.regular).map fun t => (s.app, t),
        a.1 ≠ r.app := by
    intro l hl a ha
    obtain ⟨s, hs, hst⟩ := List.mem_filterMap.mp ha
    obtain ⟨t, -, rfl⟩ := Option.map_eq_some_iff.mp hst
    exact hl s (List.mem_filter.mp hs).1
  rw [List.filter_append, List.filter_cons_of_pos (by simpa using ne), List.filterMap_append, List.foldl_append,
    AppRecord.foldl_assigned_of_ne (others before hbefore), AppRecord.contend_of_ne ne, List.filterMap_cons]
  cases Status.demotion? asker.capabilities asked r.capabilities r.regular with
  | none => exact AppRecord.foldl_assigned_of_ne (others after hafter)
  | some t =>
    simp only [Option.map_some, List.foldl_cons, Option.elim_some]
    rw [show r.assigned (r.app, t) = r.withRegular t from if_pos rfl]
    exact AppRecord.foldl_assigned_of_ne (others after hafter)

/-- Arbitration changes every record on its own. -/
theorem arbitrate_eq_map {apps : Roster} (distinct : apps.Distinct) {target : AppId} {asker : AppRecord}
    (known : apps.record? target = some asker) (asked : Status) :
    apps.arbitrate target asked = apps.map (AppRecord.contend asker asked) := by
  obtain ⟨-, rfl⟩ := record?_mem known
  simp only [arbitrate, assignments, known]
  rw [assign_eq_map]
  refine List.map_congr_left fun r hr => ?_
  rw [List.foldl_cons]
  by_cases h : r.app = asker.app
  · rw [AppRecord.contend_of_eq h, show r.assigned (asker.app, asked) = r.withRegular asked from if_pos h]
    refine AppRecord.foldl_assigned_of_ne fun a ha => ?_
    obtain ⟨s, hs, hst⟩ := List.mem_filterMap.mp ha
    obtain ⟨t, -, rfl⟩ := Option.map_eq_some_iff.mp hst
    have hne : s.app ≠ asker.app := by simpa using (List.mem_filter.mp hs).2
    exact h ▸ hne
  · rw [AppRecord.assigned_of_ne (Ne.symm h)]
    exact foldl_assigned_demotions distinct hr h

/-- Arbitration neither adds an application nor takes one away. -/
theorem isSome_record?_arbitrate (apps : Roster) (target app : AppId) (asked : Status) :
    ((apps.arbitrate target asked).record? app).isSome = (apps.record? app).isSome := by
  unfold arbitrate
  split
  · rw [assign_eq_map, record?_map (AppRecord.foldl_assigned_app _), Option.isSome_map]
  · rfl

theorem arbitrate_of_unknown {apps : Roster} {target : AppId} (unknown : apps.record? target = none)
    (asked : Status) : apps.arbitrate target asked = apps := by
  simp [arbitrate, assignments, unknown]

/-- What holds of a roster, and still does once every record has given way to one of them, holds after
    an arbitration. -/
theorem Ordered.arbitrate_induct {P : Roster → Prop} {apps : Roster} (ordered : apps.Ordered) {asked : Status}
    (unknown : P apps) (known : ∀ asker ∈ apps, P (apps.map (AppRecord.contend asker asked))) (target : AppId) :
    P (apps.arbitrate target asked) := by
  cases found : apps.record? target with
  | none =>
    rw [arbitrate_of_unknown found]
    exact unknown
  | some asker =>
    rw [arbitrate_eq_map ordered.distinct found]
    exact known asker (record?_mem found).1

theorem Ordered.arbitrate {apps : Roster} (h : apps.Ordered) (target : AppId) (asked : Status) :
    (apps.arbitrate target asked).Ordered :=
  h.arbitrate_induct h (fun _ _ => h.map fun _ => AppRecord.contend_app) target

/-- What arbitration does not see of the records makes no difference to it. -/
theorem Ordered.arbitrate_map {apps : Roster} (h : apps.Ordered) {g : AppRecord → AppRecord}
    (profile : ∀ r, (g r).profile = r.profile) (regular : ∀ r, (g r).regular = r.regular)
    (keeps : ∀ r s, g { r with regular := s } = { g r with regular := s }) (target : AppId) (asked : Status) :
    Roster.arbitrate target asked (apps.map g) = (apps.arbitrate target asked).map g := by
  have app : ∀ r, (g r).app = r.app := fun r => congrArg Profile.app (profile r)
  have found := record?_map app target apps
  cases known : apps.record? target with
  | none =>
    rw [known] at found
    rw [arbitrate_of_unknown known, arbitrate_of_unknown found]
  | some asker =>
    rw [known] at found
    have ordered : Ordered (apps.map g) := h.map app
    rw [arbitrate_eq_map h.distinct known, arbitrate_eq_map ordered.distinct found, List.map_map, List.map_map]
    exact List.map_congr_left fun _ _ => AppRecord.contend_comm profile regular keeps

end Roster

end HeadUnit
