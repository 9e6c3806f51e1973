import HeadUnit.Proofs.Numerals
import HeadUnit.Settings
import Mathlib.Data.List.Forall2

/-! Settings read from a look-up of texts by key. Which texts stand for a switch, a level or a timeout is said here
    without any reading, each up to blanks at both ends and to the case of its letters. Main statement: every field
    is what the text under its own key stands for, and its default where that stands for nothing; so all settings
    with a known level can be written as texts and read again. -/

namespace HeadUnit

namespace Text
variable {cs ds t w : List Char} {n : Nat}

/-! ### Case -/

/-- The texts agree up to the case of ASCII letters. -/
def SameLetters (cs ds : List Char) : Prop := cs.map Char.toLower = ds.map Char.toLower

theorem toLower_eq_self {c : Char} (h : c.toNat < 65 ∨ 90 < c.toNat) : c.toLower = c := by
  refine dif_neg fun ⟨low, high⟩ => ?_
  have low : 65 ≤ c.toNat := low
  have high : c.toNat ≤ 90 := high
  omega

theorem toUpper_eq_self {c : Char} (h : c.toNat < 97 ∨ 122 < c.toNat) : c.toUpper = c := by
  refine dif_neg fun ⟨low, high⟩ => ?_
  have low : 97 ≤ c.toNat := low
  have high : c.toNat ≤ 122 := high
  omega

/-- Maps of characters agree if they do on ASCII, character by character, and beyond. -/
theorem funext_ascii {f g : Char → Char} (ascii : ∀ n < 128, f (Char.ofNat n) = g (Char.ofNat n))
    (beyond : ∀ c, 128 ≤ c.toNat → f c = g c) : f = g := by
  funext c
  rcases Nat.lt_or_ge c.toNat 128 with within | far
  · have same := ascii c.toNat within
    rwa [Char.ofNat_toNat] at same
  · exact beyond c far

theorem sameLetters_iff_toUpper : SameLetters cs ds ↔ cs.map Char.toUpper = ds.map Char.toUpper := by
  have lower : Char.toLower ∘ Char.toUpper = Char.toLower :=
    funext_ascii (by decide) fun c far => congrArg Char.toLower (toUpper_eq_self (Or.inr (by omega)))
  have upper : Char.toUpper ∘ Char.toLower = Char.toUpper :=
    funext_ascii (by decide) fun c far => congrArg Char.toUpper (toLower_eq_self (Or.inr (by omega)))
  constructor
  · intro h
    simpa [upper] using congrArg (List.map Char.toUpper) h
  · intro h
    simpa [lower, SameLetters] using congrArg (List.map Char.toLower) h

theorem Denotes.map_toLower (h : Denotes t n) : t.map Char.toLower = t := by
  have plain : ∀ c ∈ t, c.toLower = c := fun c hc => by
    rcases h.mem_cases hc with rfl | ⟨-, high⟩
    · rfl
    · have high : c.toNat ≤ 57 := high
      exact toLower_eq_self (Or.inl (by omega))
  rw [List.map_congr_left plain, List.map_id']

/-- A small form of a character. Of the characters beyond ASCII only the Kelvin sign has one within. -/
def IsSmallForm (c : Char) (form : List Char) : Prop :=
  if c.toNat < 128 then form = [c.toLower]
  else if c = '\u212A' then form = ['k']
  else ∃ d ∈ form, 128 ≤ d.toNat

/-- A way to make texts small, character by character. The small form of a character may depend on those
    around it. -/
def IsLowerCasing (lower : List Char → List Char) : Prop :=
  ∀ cs, ∃ forms, List.Forall₂ IsSmallForm cs forms ∧ lower cs = forms.flatten

/-- Texts are made small one character at a time, all but the Kelvin sign as ASCII has it. -/
theorem isLowerCasing_map : IsLowerCasing (List.map fun c => if c = '\u212A' then 'k' else c.toLower) := fun cs => by
  refine ⟨cs.map fun c => [if c = '\u212A' then 'k' else c.toLower], ?_, ?_⟩
  · rw [List.forall₂_map_right_iff, List.forall₂_same]
    intro c _
    by_cases kelvin : c = '\u212A'
    · subst kelvin
      rfl
    · rw [if_neg kelvin, IsSmallForm, if_neg kelvin]
      split
      · rfl
      · rw [toLower_eq_self (Or.inr (by omega))]
        exact ⟨c, List.mem_singleton_self c, by omega⟩
  · rw [← List.flatMap_def]
    exact List.map_eq_flatMap

theorem IsSmallForm.foreign {c : Char} {form : List Char} (small : IsSmallForm c form) (beyond : ¬ c.toNat < 128) :
    ∃ d ∈ form, ¬ (d.toNat < 128 ∧ d ≠ 'k') := by
  simp only [IsSmallForm, beyond, ↓reduceIte] at small
  split at small
  · exact ⟨'k', by simp [small], by simp⟩
  · obtain ⟨d, hd, far⟩ := small
    exact ⟨d, hd, fun plain => absurd plain.1 (by omega)⟩

/-- For a word of ASCII letters other than `k` it does not matter how the characters beyond ASCII are made small. -/
theorem IsLowerCasing.eq_iff {lower : List Char → List Char} (h : IsLowerCasing lower)
    (plain : ∀ c ∈ w, c.toNat < 128 ∧ c ≠ 'k') : lower cs = w ↔ cs.map Char.toLower = w := by
  obtain ⟨forms, small, e⟩ := h cs
  rw [e]
  clear e
  induction small generalizing w with
  | nil => rfl
  | @cons c form cs forms first rest ih =>
    rw [List.flatten_cons, List.map_cons]
    by_cases ascii : c.toNat < 128
    · simp only [IsSmallForm, ascii, ↓reduceIte] at first
      subst first
      cases w with
      | nil => simp
      | cons d w =>
        rw [List.singleton_append, List.cons.injEq, List.cons.injEq,
          ih fun c hc => plain c (List.mem_cons_of_mem d hc)]
    · -- Neither side can be the word: both hold a character that it does not.
      obtain ⟨d, hd, foreign⟩ := first.foreign ascii
      refine iff_of_false (fun same => ?_) fun same => ?_
      · exact foreign (plain d (same ▸ List.mem_append_left _ hd))
      · rw [toLower_eq_self (Or.inr (by omega))] at same
        exact ascii (plain c (same ▸ List.mem_cons_self)).1

end Text

/-! ### What a text stands for -/

open Text

theorem ofList_eq_iff {cs : List Char} {w : String} : String.ofList cs = w ↔ cs = w.toList := by
  rw [← String.toList_inj, String.toList_ofList]

theorem Level.map_toUpper_wireName (l : Level) : l.wireName.toList.map Char.toUpper = l.wireName.toList := by
  cases l <;> rfl

theorem Level.ofText?_eq_some_iff {s : String} {l : Level} :
    Level.ofText? s = some l ↔ l.isValid = true ∧ SameLetters (trim s.toList) l.wireName.toList := by
  rw [sameLetters_iff_toUpper, map_toUpper_wireName, ← ofList_eq_iff, ofText?]
  generalize String.ofList ((trim s.toList).map Char.toUpper) = name
  split
  · cases l <;> simp [isValid, wireName]
  · cases l <;> simp [isValid, wireName]
  · cases l <;> simp [isValid, wireName]
  · cases l <;> simp [isValid, wireName]
  · next absent background limited full =>
    refine iff_of_false (fun h => by cases h) ?_
    rintro ⟨valid, rfl⟩
    cases l with
    | absent => exact absent rfl
    | background => exact background rfl
    | limited => exact limited rfl
    | full => exact full rfl
    | invalid => cases valid

namespace Settings

theorem switch?_eq_true_iff {s : String} : switch? s = some true ↔
    String.ofList ((trim s.toList).map Char.toLower) ∈ ["true", "1", "yes"] := by
  unfold switch?
  generalize String.ofList ((trim s.toList).map Char.toLower) = word
  split
  · simp
  · simp
  · simp
  · simp
  · simp
  · simp
  · next isTrue isOne isYes _ _ _ =>
    refine iff_of_false (fun h => by cases h) ?_
    simp only [List.mem_cons, List.not_mem_nil, or_false, not_or]
    exact ⟨isTrue, isOne, isYes⟩

/-- The text stands for a timeout. -/
def IsTimeout (t : List Char) : Prop := SameLetters t "none".toList ∨ ∃ n ≤ UInt64.size - 1, Denotes t n

/-- The text stands for a level. -/
def IsLevel (t : List Char) : Prop := ∃ l : Level, l.isValid = true ∧ SameLetters t l.wireName.toList

theorem ofText?_eq_none_iff {s : String} : Level.ofText? s = none ↔ ¬ IsLevel (trim s.toList) := by
  simp only [Option.eq_none_iff_forall_ne_some, ne_eq, Level.ofText?_eq_some_iff, IsLevel, not_exists]

theorem not_denotes_of_sameLetters {t : List Char} {n : Nat} (h : SameLetters t "none".toList) : ¬ Denotes t n := by
  intro denotes
  rw [SameLetters, denotes.map_toLower] at h
  subst h
  exact numeral?_eq_none_iff.mp (show numeral? n "none".toList = none from rfl) ⟨n, denotes, le_rfl⟩

theorem timeout?_cases (s : String) :
    (timeout? s = some none ∧ SameLetters (trim s.toList) "none".toList) ∨
      (∃ n : UInt64, timeout? s = some (some n) ∧ Denotes (trim s.toList) n.toNat) ∨
      timeout? s = none ∧ ¬ IsTimeout (trim s.toList) := by
  dsimp only [timeout?]
  split
  · next h => exact Or.inl ⟨rfl, h⟩
  · next other =>
    cases read : numeral? (UInt64.size - 1) (trim s.toList) with
    | some n =>
      obtain ⟨denotes, fits⟩ := numeral?_eq_some_iff.mp read
      refine Or.inr (Or.inl ⟨UInt64.ofNat n, rfl, ?_⟩)
      rwa [UInt64.toNat_ofNat_of_lt' (Nat.lt_of_le_pred (by decide) fits)]
    | none =>
      refine Or.inr (Or.inr ⟨rfl, ?_⟩)
      rintro (word | ⟨n, fits, denotes⟩)
      · exact other word
      · exact numeral?_eq_none_iff.mp read ⟨n, denotes, fits⟩

theorem IsTimeout.of_denotes {t : List Char} {n : UInt64} (h : Denotes t n.toNat) : IsTimeout t :=
  Or.inr ⟨n.toNat, Nat.le_pred_of_lt n.toNat_lt, h⟩

theorem timeout?_eq_forever_iff {s : String} : timeout? s = some none ↔ SameLetters (trim s.toList) "none".toList := by
  rcases timeout?_cases s with ⟨e, word⟩ | ⟨n, e, denotes⟩ | ⟨e, other⟩ <;> rw [e]
  · exact iff_of_true rfl word
  · exact iff_of_false (by simp) fun word => not_denotes_of_sameLetters word denotes
  · exact iff_of_false (by simp) fun word => other (Or.inl word)

theorem timeout?_eq_some_iff {s : String} {n : UInt64} :
    timeout? s = some (some n) ↔ Denotes (trim s.toList) n.toNat := by
  rcases timeout?_cases s with ⟨e, word⟩ | ⟨m, e, denotes⟩ | ⟨e, other⟩ <;> rw [e]
  · exact iff_of_false (by simp) (not_denotes_of_sameLetters word)
  · rw [Option.some.injEq, Option.some.injEq]
    exact ⟨fun same => same ▸ denotes, fun h => UInt64.toNat_inj.mp (denotes.unique h)⟩
  · exact iff_of_false (by simp) fun h => other (.of_denotes h)

theorem timeout?_eq_none_iff {s : String} : timeout? s = none ↔ ¬ IsTimeout (trim s.toList) := by
  rcases timeout?_cases s with ⟨e, word⟩ | ⟨n, e, denotes⟩ | ⟨e, other⟩ <;> rw [e]
  · exact iff_of_false (by simp) fun h => h (Or.inl word)
  · exact iff_of_false (by simp) fun h => h (.of_denotes denotes)
  · exact iff_of_true rfl other

/-! ### What a look-up gives -/

section
variable {lookup : String → Option String} {key : String}

/-- The text under a key, without the blanks around it. -/
def Found (lookup : String → Option String) (key : String) (t : List Char) : Prop :=
  ∃ v, lookup key = some v ∧ IsCore v.toList t

theorem exists_found_iff {P : List Char → Prop} :
    (∃ t, Found lookup key t ∧ P t) ↔ ∃ v, lookup key = some v ∧ P (trim v.toList) := by
  constructor
  · rintro ⟨t, ⟨v, under, core⟩, h⟩
    exact ⟨v, under, core.trim_eq.symm ▸ h⟩
  · rintro ⟨v, under, h⟩
    exact ⟨_, ⟨v, under, isCore_trim _⟩, h⟩

theorem forall_found_iff {P : List Char → Prop} :
    (∀ t, Found lookup key t → P t) ↔ ∀ v, lookup key = some v → P (trim v.toList) := by
  constructor
  · exact fun h v under => h _ ⟨v, under, isCore_trim _⟩
  · rintro h t ⟨v, under, core⟩
    exact core.trim_eq ▸ h v under

/-- A field is what the text under its key is read as, or the default. -/
theorem getD_bind_eq_iff {α : Type} {read? : String → Option α} {default x : α} :
    ((lookup key).bind read?).getD default = x ↔
      (∃ v, lookup key = some v ∧ read? v = some x) ∨ x = default ∧ ∀ v, lookup key = some v → read? v = none := by
  cases under : lookup key with
  | none => simp [eq_comm]
  | some v => cases read : read? v <;> simp [read, eq_comm]

theorem timeout_eq_none_iff : (ofLookup lookup).timeout = none ↔
    ∃ t, Found lookup timeoutKey t ∧ SameLetters t "none".toList := by
  rw [exists_found_iff]
  refine getD_bind_eq_iff.trans ?_
  simp only [timeout?_eq_forever_iff, reduceCtorEq, false_and, or_false]

theorem timeout_eq_some_iff {n : UInt64} : (ofLookup lookup).timeout = some n ↔
    (∃ t, Found lookup timeoutKey t ∧ Denotes t n.toNat) ∨ n = 10 ∧ ∀ t, Found lookup timeoutKey t → ¬ IsTimeout t := by
  rw [exists_found_iff, forall_found_iff]
  refine getD_bind_eq_iff.trans ?_
  simp only [timeout?_eq_some_iff, timeout?_eq_none_iff, Option.some.injEq]

theorem entryLevel_eq_iff {l : Level} : (ofLookup lookup).entryLevel = l ↔
    (l.isValid = true ∧ ∃ t, Found lookup entryLevelKey t ∧ SameLetters t l.wireName.toList) ∨
      l = .absent ∧ ∀ t, Found lookup entryLevelKey t → ¬ IsLevel t := by
  rw [exists_found_iff, forall_found_iff]
  refine getD_bind_eq_iff.trans ?_
  refine or_congr ?_ ?_
  · simp only [Level.ofText?_eq_some_iff]
    exact ⟨fun ⟨v, under, valid, same⟩ => ⟨valid, v, under, same⟩,
      fun ⟨valid, v, under, same⟩ => ⟨v, under, valid, same⟩⟩
  · simp only [ofText?_eq_none_iff]

theorem attenuates_iff : (ofLookup lookup).attenuates = true ↔
    ∃ t, Found lookup attenuatesKey t ∧ String.ofList (t.map Char.toLower) ∈ ["true", "1", "yes"] := by
  rw [exists_found_iff]
  refine getD_bind_eq_iff.trans ?_
  simp only [switch?_eq_true_iff, reduceCtorEq, false_and, or_false]

/-- The words of a switch are ASCII without a `k`, so they are met by the same texts however these are made small. -/
theorem attenuates_iff_of_isLowerCasing {lower : List Char → List Char} (small : IsLowerCasing lower) :
    (ofLookup lookup).attenuates = true ↔
      ∃ t, Found lookup attenuatesKey t ∧ String.ofList (lower t) ∈ ["true", "1", "yes"] := by
  have plain : ∀ w : String, (w.toList.all fun c => decide (c.toNat < 128 ∧ c ≠ 'k')) = true →
      ∀ c ∈ w.toList, c.toNat < 128 ∧ c ≠ 'k' := fun _ all c hc => of_decide_eq_true (List.all_eq_true.mp all c hc)
  have either : ∀ t : List Char, String.ofList (t.map Char.toLower) ∈ ["true", "1", "yes"] ↔
      String.ofList (lower t) ∈ ["true", "1", "yes"] := fun t => by
    simp only [List.mem_cons, List.not_mem_nil, or_false, ofList_eq_iff]
    rw [small.eq_iff (plain "true" (by decide)), small.eq_iff (plain "1" (by decide)),
      small.eq_iff (plain "yes" (by decide))]
  simp only [attenuates_iff, either]

theorem entryLevel_ne_invalid (lookup : String → Option String) : (ofLookup lookup).entryLevel ≠ .invalid := by
  intro marker
  rcases entryLevel_eq_iff.mp marker with ⟨valid, -⟩ | ⟨absent, -⟩
  · cases valid
  · cases absent

/-! ### Settings written as texts -/

/-- Under the key stands the text, with any blanks around it. -/
def Holds (lookup : String → Option String) (key text : String) : Prop :=
  ∃ before after : String, lookup key = some (before ++ text ++ after) ∧
    ∀ c ∈ before.toList ++ after.toList, isBlank c = true

/-- The look-up holds the settings, each field as a text of its own. -/
structure Writes (lookup : String → Option String) (s : Settings) : Prop where
  attenuates : Holds lookup attenuatesKey (if s.attenuates then "true" else "false")
  entryLevel : Holds lookup entryLevelKey s.entryLevel.wireName
  timeout : Holds lookup timeoutKey (s.timeout.elim "none" fun n => toString n.toNat)

theorem Holds.found {text : String} (h : Holds lookup key text) (core : trim text.toList = text.toList) :
    Found lookup key text.toList := by
  obtain ⟨before, after, under, blank⟩ := h
  refine ⟨_, under, trim_eq_iff.mp ?_⟩
  rw [String.toList_append, String.toList_append, trim_pad blank, core]

theorem Found.unique {t t' : List Char} (h : Found lookup key t) (h' : Found lookup key t') : t = t' := by
  obtain ⟨v, under, core⟩ := h
  obtain ⟨v', under', core'⟩ := h'
  obtain rfl : v = v' := Option.some.inj (under.symm.trans under')
  exact core.trim_eq.symm.trans core'.trim_eq

theorem Writes.attenuates_eq {s : Settings} (h : Writes lookup s) : (ofLookup lookup).attenuates = s.attenuates := by
  rw [Bool.eq_iff_iff, attenuates_iff]
  have held := h.attenuates
  cases on : s.attenuates with
  | true =>
    rw [on] at held
    exact iff_of_true ⟨_, held.found (by decide), by decide⟩ rfl
  | false =>
    rw [on] at held
    refine iff_of_false ?_ (by decide)
    rintro ⟨t, found, word⟩
    rw [found.unique (held.found (by decide))] at word
    exact absurd word (by decide)

theorem Writes.entryLevel_eq {s : Settings} (h : Writes lookup s) (valid : s.entryLevel.isValid = true) :
    (ofLookup lookup).entryLevel = s.entryLevel := by
  have core : ∀ l : Level, trim l.wireName.toList = l.wireName.toList := fun l => by cases l <;> decide
  exact entryLevel_eq_iff.mpr (Or.inl ⟨valid, _, h.entryLevel.found (core _), rfl⟩)

theorem Writes.timeout_eq {s : Settings} (h : Writes lookup s) : (ofLookup lookup).timeout = s.timeout := by
  have held := h.timeout
  cases after : s.timeout with
  | none =>
    rw [after] at held
    exact timeout_eq_none_iff.mpr ⟨_, held.found (by decide), rfl⟩
  | some n =>
    rw [after, Option.elim_some, Nat.toString_eq_repr] at held
    have denotes := denotes_toDigits n.toNat
    rw [← Nat.toList_repr] at denotes
    exact timeout_eq_some_iff.mpr (Or.inl ⟨_, held.found denotes.isCore.trim_eq, denotes⟩)

end

/-- Each field is what the text under its own key stands for, and its default if there is none or it stands for
    nothing. The switch is made small in any way that keeps to the small forms of the characters. So settings
    are read again from their own texts, if their level is known. -/
theorem ofLookup_by_grammar (lookup : String → Option String) :
    ((∀ other, lookup attenuatesKey = other attenuatesKey →
          (ofLookup lookup).attenuates = (ofLookup other).attenuates) ∧
      (∀ other, lookup entryLevelKey = other entryLevelKey →
          (ofLookup lookup).entryLevel = (ofLookup other).entryLevel) ∧
      ∀ other, lookup timeoutKey = other timeoutKey → (ofLookup lookup).timeout = (ofLookup other).timeout) ∧
      (((ofLookup lookup).timeout = none ↔ ∃ t, Found lookup timeoutKey t ∧ SameLetters t "none".toList) ∧
        ∀ n, (ofLookup lookup).timeout = some n ↔ (∃ t, Found lookup timeoutKey t ∧ Denotes t n.toNat) ∨
          n = 10 ∧ ∀ t, Found lookup timeoutKey t → ¬ IsTimeout t) ∧
      ((∀ l, (ofLookup lookup).entryLevel = l ↔
          (l.isValid = true ∧ ∃ t, Found lookup entryLevelKey t ∧ SameLetters t l.wireName.toList) ∨
            l = .absent ∧ ∀ t, Found lookup entryLevelKey t → ¬ IsLevel t) ∧
        (ofLookup lookup).entryLevel ≠ .invalid) ∧
      (∀ lower, IsLowerCasing lower → ((ofLookup lookup).attenuates = true ↔
        ∃ t, Found lookup attenuatesKey t ∧ String.ofList (lower t) ∈ ["true", "1", "yes"])) ∧
      ∀ s : Settings, s.entryLevel.isValid = true → Writes lookup s → ofLookup lookup = s := by
  refine ⟨⟨fun other same => ?_, fun other same => ?_, fun other same => ?_⟩,
    ⟨timeout_eq_none_iff, fun n => timeout_eq_some_iff⟩, ⟨fun l => entryLevel_eq_iff, entryLevel_ne_invalid lookup⟩,
    fun lower small => ?_, fun s valid written => ?_⟩
  · exact congrArg (fun v => (v.bind switch?).getD false) same
  · exact congrArg (fun v => (v.bind Level.ofText?).getD .absent) same
  · exact congrArg (fun v => (v.bind timeout?).getD (some 10)) same
  · exact attenuates_iff_of_isLowerCasing small
  · calc
      ofLookup lookup = ⟨⟨(ofLookup lookup).attenuates, (ofLookup lookup).entryLevel⟩, (ofLookup lookup).timeout⟩ := rfl
      _ = ⟨⟨s.attenuates, s.entryLevel⟩, s.timeout⟩ := by
        rw [written.attenuates_eq, written.entryLevel_eq valid, written.timeout_eq]

/-- Blanks of any kind may stand around the texts, and the largest timeout is read in full. -/
theorem ofLookup_by_grammar_padded :
    let lookup := fun key =>
      if key = attenuatesKey then some "\u00a0true\n"
      else if key = entryLevelKey then some "\tLIMITED\u3000"
      else some "18446744073709551615\r\n"
    let lower := List.map fun c => if c = '\u212A' then 'k' else c.toLower
    (lookup timeoutKey = some "18446744073709551615\r\n" ∧ IsLowerCasing lower ∧ Level.limited.isValid = true ∧
      Writes lookup ⟨⟨true, .limited⟩, some 18446744073709551615⟩) ∧
      (ofLookup lookup).timeout = (ofLookup fun _ => some "18446744073709551615\r\n").timeout ∧
      ((ofLookup lookup).attenuates = true ↔
        ∃ t, Found lookup attenuatesKey t ∧ String.ofList (lower t) ∈ ["true", "1", "yes"]) ∧
      ofLookup lookup = ⟨⟨true, .limited⟩, some 18446744073709551615⟩ := by
  intro lookup lower
  have written : Writes lookup ⟨⟨true, .limited⟩, some 18446744073709551615⟩ :=
    ⟨⟨"\u00a0", "\n", rfl, List.all_eq_true.mp (by decide)⟩, ⟨"\t", "\u3000", rfl, List.all_eq_true.mp (by decide)⟩,
      ⟨"", "\r\n", rfl, List.all_eq_true.mp (by decide)⟩⟩
  obtain ⟨⟨-, -, ownKey⟩, -, -, attenuates, again⟩ := ofLookup_by_grammar lookup
  exact ⟨⟨rfl, isLowerCasing_map, rfl, written⟩, ownKey _ rfl, attenuates lower isLowerCasing_map, again _ rfl written⟩

end Settings

end HeadUnit
