import HeadUnit.Proofs.Numerals
import HeadUnit.Wire.Decode
import HeadUnit.Wire.Encode
import Mathlib.Data.List.Nodup

/-! What is written as a JSON value is read again. Readers of records find their members in any order and pass over
    those under foreign keys; the reader of an event has to store these first, and refuses what cannot be stored.
    A name nobody knows is read as the marker of its type, where there is one, and refused elsewhere. -/

namespace HeadUnit

/-! ### Members of objects -/

namespace Json

/-- A member under a key that is none of the known ones. -/
def IsForeign (known : List String) (m : Str × Json) : Prop := ∃ key ∉ known, m.1 = some key

/-- The members in any order, with foreign ones among them. -/
def Rearranged (known : List String) (ms ms' : List (Str × Json)) : Prop :=
  ∃ more, ms'.Perm (ms ++ more) ∧ ∀ m ∈ more, IsForeign known m

/-- The members in any order, with foreign ones among them that can be stored as members of an object. -/
def RearrangedStorably (known : List String) (ms ms' : List (Str × Json)) : Prop :=
  ∃ more, ms'.Perm (ms ++ more) ∧ ∀ m ∈ more, IsForeign known m ∧ isStorable (depthLimit - 1) m.2 = true

variable {known : List String} {ms ms' : List (Str × Json)} {key : String}

theorem RearrangedStorably.rearranged (h : RearrangedStorably known ms ms') : Rearranged known ms ms' := by
  obtain ⟨more, perm, foreign⟩ := h
  exact ⟨more, perm, fun m hm => (foreign m hm).1⟩

theorem IsForeign.ne {m : Str × Json} (h : IsForeign known m) (mem : key ∈ known) : m.1 ≠ some key := by
  obtain ⟨other, unknown, e⟩ := h
  rw [e]
  exact fun same => unknown (Option.some.inj same ▸ mem)

theorem IsForeign.mono {m : Str × Json} {fewer : List String} (h : IsForeign known m)
    (sub : ∀ key ∈ fewer, key ∈ known) : IsForeign fewer m := by
  obtain ⟨key, unknown, e⟩ := h
  exact ⟨key, fun mem => unknown (sub key mem), e⟩

/-- Under a known key nothing changes but the order. -/
theorem Rearranged.filter_perm (h : Rearranged known ms ms') (mem : key ∈ known) :
    (ms'.filter fun m => m.1 = some key).Perm (ms.filter fun m => m.1 = some key) := by
  obtain ⟨more, perm, foreign⟩ := h
  have nothing : (more.filter fun m => m.1 = some key) = [] := by
    rw [List.filter_eq_nil_iff]
    exact fun m hm => by simpa using (foreign m hm).ne mem
  simpa [List.filter_append, nothing] using perm.filter fun m => decide (m.1 = some key)

theorem Rearranged.filter (h : Rearranged known ms ms') (p : Str × Json → Bool) :
    Rearranged known (ms.filter p) (ms'.filter p) := by
  obtain ⟨more, perm, foreign⟩ := h
  exact ⟨more.filter p, List.filter_append .. ▸ perm.filter p, fun m hm => foreign m (List.mem_of_mem_filter hm)⟩

theorem Rearranged.mono {fewer : List String} (h : Rearranged known ms ms') (sub : ∀ key ∈ fewer, key ∈ known) :
    Rearranged fewer ms ms' := by
  obtain ⟨more, perm, foreign⟩ := h
  exact ⟨more, perm, fun m hm => (foreign m hm).mono sub⟩

theorem RearrangedStorably.isStorable_eq (h : RearrangedStorably known ms ms') :
    isStorable depthLimit (.object ms') = isStorable depthLimit (.object ms) := by
  obtain ⟨more, perm, foreign⟩ := h
  have storable : (more.all fun m => m.1.isSome && isStorable (depthLimit - 1) m.2) = true := by
    rw [List.all_eq_true]
    intro m hm
    obtain ⟨⟨key, -, e⟩, storable⟩ := foreign m hm
    rw [e, storable]
    rfl
  calc
    isStorable depthLimit (.object ms') = ms'.all fun m => m.1.isSome && isStorable (depthLimit - 1) m.2 := rfl
    _ = ms.all fun m => m.1.isSome && isStorable (depthLimit - 1) m.2 := by
      rw [perm.all_eq, List.all_append, storable, Bool.and_true]

theorem eq_of_perm_of_length_le_one {α : Type} {l l' : List α} (perm : l.Perm l') (one : l'.length ≤ 1) : l = l' := by
  match l', one with
  | [], _ => exact perm.eq_nil
  | [a], _ => exact List.perm_singleton.mp perm

end Json

open Json

namespace Wire
variable {names : List String} {ms ms' : List (Str × Json)}

/-- The keys are texts, and none of the record is among them twice. -/
def KeysFit (names : List String) (keys : List Str) : Prop :=
  (∀ k ∈ keys, k.isSome = true) ∧ ∀ n ∈ names, (keys.countP fun k => k = some n) ≤ 1

/-- What stands under a key. -/
def under (ms : List (Str × Json)) (n : String) : Option Json := (ms.find? fun m => m.1 = some n).map Prod.snd

theorem keysFit_iff : KeysFit names (ms.map Prod.fst) ↔
    ((ms.all fun m => m.1.isSome) && names.all fun n => (ms.countP fun m => m.1 = some n) ≤ 1) = true := by
  simp only [KeysFit, List.forall_mem_map, List.countP_map, Bool.and_eq_true, List.all_eq_true, decide_eq_true_eq]
  rfl

theorem fields?_of_fit (fit : KeysFit names (ms.map Prod.fst)) :
    fields? names (.object ms) = some (names.map (under ms)) :=
  if_pos (keysFit_iff.mp fit)

theorem fields?_of_not_fit (other : ¬ KeysFit names (ms.map Prod.fst)) : fields? names (.object ms) = none :=
  if_neg fun fit => other (keysFit_iff.mpr fit)

theorem keysFit_rearranged (h : Rearranged names ms ms') :
    KeysFit names (ms'.map Prod.fst) ↔ KeysFit names (ms.map Prod.fst) := by
  have count : ∀ n ∈ names, ((ms'.map Prod.fst).countP fun k => k = some n) =
      (ms.map Prod.fst).countP fun k => k = some n := by
    intro n hn
    rw [List.countP_map, List.countP_map, List.countP_eq_length_filter, List.countP_eq_length_filter]
    exact (h.filter_perm hn).length_eq
  obtain ⟨more, perm, foreign⟩ := h
  have texts : (∀ k ∈ ms'.map Prod.fst, k.isSome = true) ↔ ∀ k ∈ ms.map Prod.fst, k.isSome = true := by
    simp only [List.forall_mem_map, perm.mem_iff, List.mem_append]
    refine ⟨fun all m hm => all m (Or.inl hm), fun all m hm => ?_⟩
    rcases hm with hm | hm
    · exact all m hm
    · obtain ⟨key, -, e⟩ := foreign m hm
      rw [e, Option.isSome_some]
  exact and_congr texts (forall₂_congr fun n hn => by rw [count n hn])

/-- A key given at most once has its value wherever it stands. -/
theorem under_rearranged (h : Rearranged names ms ms') (fit : KeysFit names (ms.map Prod.fst)) {n : String}
    (hn : n ∈ names) : under ms' n = under ms n := by
  have once : (ms.filter fun m => m.1 = some n).length ≤ 1 := by
    have count := fit.2 n hn
    rwa [List.countP_map, List.countP_eq_length_filter] at count
  rw [under, under, ← List.head?_filter, ← List.head?_filter, eq_of_perm_of_length_le_one (h.filter_perm hn) once]

/-- The fields of a record do not depend on the order of the members, nor on those under foreign keys. -/
theorem fields?_rearranged (h : Rearranged names ms ms') :
    fields? names (.object ms') = fields? names (.object ms) := by
  by_cases fit : KeysFit names (ms.map Prod.fst)
  · rw [fields?_of_fit fit, fields?_of_fit ((keysFit_rearranged h).mpr fit),
      List.map_congr_left fun n hn => under_rearranged h fit hn]
  · rw [fields?_of_not_fit fit, fields?_of_not_fit fun fit' => fit ((keysFit_rearranged h).mp fit')]

theorem under_ofMembers {ms : List (String × Json)} (distinct : (ms.map Prod.fst).Nodup) {m : String × Json}
    (hm : m ∈ ms) : under (ms.map fun m => (some m.1, m.2)) m.1 = some m.2 := by
  obtain ⟨found, e⟩ : ∃ found, ms.find? (fun other => other.1 = m.1) = some found :=
    Option.isSome_iff_exists.mp (List.find?_isSome.mpr ⟨m, hm, by simp⟩)
  have same : found = m :=
    List.inj_on_of_nodup_map distinct (List.mem_of_find?_eq_some e) hm (by simpa using List.find?_some e)
  rw [under, List.find?_map]
  simp only [Function.comp_def, Option.some.injEq, e, same, Option.map_some]

/-- Of an object that has all the fields and nothing else each field is read. -/
theorem fields?_ofMembers {ms : List (String × Json)} (keys : ms.map Prod.fst = names) (distinct : names.Nodup) :
    fields? names (.ofMembers ms) = some (ms.map fun m => some m.2) := by
  subst keys
  have fit : KeysFit (ms.map Prod.fst) ((ms.map fun m => (some m.1, m.2)).map Prod.fst) := by
    rw [List.map_map]
    refine ⟨List.forall_mem_map.mpr fun _ _ => rfl, fun n _ => ?_⟩
    rw [List.countP_map]
    have count := List.nodup_iff_count_le_one.mp distinct n
    rw [List.count, List.countP_map] at count
    exact le_trans (List.countP_mono_left fun m _ h => by simpa using h) count
  rw [ofMembers, fields?_of_fit fit, List.map_map]
  exact congrArg some (List.map_congr_left fun m hm => under_ofMembers distinct hm)

end Wire

open Wire

/-! ### Names -/

/-- Every value is read again from its name. -/
class LawfulNamed (α : Type) [Named α] : Prop where
  ofName?_name : ∀ a : α, Named.ofName? (Named.name a) = some a

instance : LawfulNamed Level := ⟨fun a => by cases a <;> rfl⟩

instance : LawfulNamed Audio := ⟨fun a => by cases a <;> rfl⟩

instance : LawfulNamed Video := ⟨fun a => by cases a <;> rfl⟩

instance : LawfulNamed Context := ⟨fun a => by cases a <;> rfl⟩

instance : LawfulNamed Overlay := ⟨fun a => by cases a <;> rfl⟩

instance : LawfulNamed Signal := ⟨fun a => by cases a <;> rfl⟩

instance : LawfulNamed Answer := ⟨fun a => by cases a <;> rfl⟩

/-- Every name that is not that of another value is read as the marker. -/
def FallsBack {α : Type} [Named α] (marker : α) : Prop :=
  ∀ source s, (∀ a : α, a ≠ marker → Named.name a ≠ s) → Named.ofJson? source (.ofString s) = some marker

namespace Named
variable {α : Type} [Named α]

@[simp] theorem ofJson?_toJson [LawfulNamed α] (source : Source) (a : α) : ofJson? source (toJson a) = some a :=
  LawfulNamed.ofName?_name a

theorem fallsBack {marker : α} (h : unknown? = some marker) : FallsBack marker := by
  intro source s others
  change ofName? s = some marker
  rw [ofName?, h]
  cases found : (values (α := α)).find? fun a => name a = s with
  | none => rfl
  | some a =>
    have named : name a = s := by simpa using List.find?_some found
    rw [Option.some_or, Classical.not_not.mp fun other => others a other named]

theorem ofJson?_eq_none {source : Source} {s : String} (h : unknown? (α := α) = none) (unknown : ∀ a : α, name a ≠ s) :
    (ofJson? source (.ofString s) : Option α) = none := by
  change ofName? s = none
  rw [ofName?, h, Option.or_none, List.find?_eq_none]
  exact fun a _ => by simpa using unknown a

end Named

/-! ### Numbers -/

namespace Json

@[simp] theorem natural?_ofNat (bound n : Nat) : natural? bound (.ofNat n) = if n ≤ bound then some n else none := by
  simp [natural?, ofNat, Number.natural?, Option.filter]

namespace Number

/-- The number that digits denote behind a number that was read before them. -/
def onto (s : Nat) (ds : List Char) : Nat := ds.foldl (fun s d => 10 * s + (d.toNat - '0'.toNat)) s

theorem le_onto : ∀ (ds : List Char) (s : Nat), s ≤ onto s ds
  | [], _ => le_rfl
  | d :: ds, s => le_trans (by omega) (le_onto ds (10 * s + (d.toNat - '0'.toNat)))

/-- Of a number of 64 bits all digits are gathered. -/
theorem gather_eq : ∀ (ds : List Char) (s : Nat), onto s ds < UInt64.size → gather s ds = (onto s ds, [])
  | [], _, _ => rfl
  | d :: ds, s, fits => by
    rw [gather, if_pos (lt_of_le_of_lt (le_onto ds _) fits)]
    exact gather_eq ds _ fits

/-- A number of 32 bits does not have to be rounded. -/
theorem round53_of_lt {n : Nat} (h : n < UInt32.size) : round53 n = n := by
  have small : n.log2 + 1 - 53 = 0 := by
    rcases Nat.eq_zero_or_pos n with rfl | pos
    · decide
    · have : n.log2 < 32 := (Nat.log2_lt pos.ne').mpr h
      omega
  simp [round53, small, Nat.mod_one]

theorem isFinite_of_lt {n : Nat} (h : n < UInt32.size) : isFinite { whole := Nat.toDigits 10 n } = true := by
  have value : onto 0 (Nat.toDigits 10 n) = n := Text.digitsValue_toDigits n
  have gathered : gather 0 (Nat.toDigits 10 n) = (n, []) := by
    rw [gather_eq _ _ (by rw [value]; exact lt_trans h (by decide)), value]
  have fits : n < infinite := lt_of_lt_of_le h (by decide +kernel)
  simp [isFinite, gathered, gather, round53_of_lt h, round53_of_lt (show 1 < UInt32.size by decide), fits]

end Number

end Json

@[simp] theorem Ident.isStorable_toJson {k : IdentKind} (depth : Nat) (i : Ident k) :
    isStorable depth i.toJson = true := by
  have finite := Number.isFinite_of_lt i.number.toNat_lt
  rwa [toJson, ofNat, isStorable]

@[simp] theorem Named.isStorable_toJson {α : Type} [Named α] (depth : Nat) (a : α) :
    isStorable depth (toJson a) = true := by
  rw [toJson, ofString, isStorable, Option.isSome_some]

@[simp] theorem Ident.ofJson?_toJson {k : IdentKind} (i : Ident k) : ofJson? i.toJson = some i := by
  rw [ofJson?, toJson, natural?_ofNat, if_pos i.number_le, Option.map_some, UInt32.ofNat_toNat]

/-! ### Records -/

@[simp] theorem Layer.ofJson?_toJson (l : Layer) : ofJson? l.toJson = some l := by
  cases l with
  | current => rfl
  | regular => rfl
  | overlay k => exact congrArg (Option.map Layer.overlay) (Named.ofJson?_toJson .text k)

theorem Layer.ofJson?_overlay_eq_none {s : String} (unknown : ∀ k : Overlay, Named.name k ≠ s) :
    ofJson? (.ofMembers [("overlay", .ofString s)]) = none :=
  congrArg (Option.map Layer.overlay) (Named.ofJson?_eq_none rfl unknown)

@[simp] theorem Status.ofJson?_toJson (s : Status) : ofJson? s.toJson = some s := by
  rw [ofJson?, toJson]
  simp [fields?_ofMembers, orDefault]

@[simp] theorem Capabilities.ofJson?_toJson (c : Capabilities) : ofJson? c.toJson = some c := by
  rw [ofJson?, toJson]
  simp [fields?_ofMembers, orDefault, bool?]

@[simp] theorem Profile.ofJson?_toJson (p : Profile) : ofJson? p.toJson = some p := by
  rw [ofJson?, toJson]
  simp [fields?_ofMembers, orDefault]

/-- A reader of objects that finds its members in any order, whatever other members there are. -/
def IgnoresRest {α : Type} (known : List String) (read? : Json → Option α) : Prop :=
  ∀ ms ms', Rearranged known ms ms' → read? (.object ms') = read? (.object ms)

theorem Status.ignoresRest : IgnoresRest ["level", "audio", "video", "context", "kind"] Status.ofJson? := by
  intro ms ms' h
  rw [ofJson?, ofJson?, fields?_rearranged h]

theorem Capabilities.ignoresRest :
    IgnoresRest ["media", "navigation", "projection", "voice_communication"] Capabilities.ofJson? := by
  intro ms ms' h
  rw [ofJson?, ofJson?, fields?_rearranged h]

theorem Profile.ignoresRest : IgnoresRest ["app_id", "hmi_app_id", "capabilities"] Profile.ofJson? := by
  intro ms ms' h
  rw [ofJson?, ofJson?, fields?_rearranged h]

/-- Within a profile too the members of the capabilities may be rearranged. -/
theorem Profile.ofJson?_rearranged_capabilities {cs cs' ms : List (Str × Json)}
    (h : Rearranged ["media", "navigation", "projection", "voice_communication"] cs cs') :
    ofJson? (.object ((some "capabilities", .object cs') :: ms)) =
      ofJson? (.object ((some "capabilities", .object cs) :: ms)) := by
  have same := Capabilities.ignoresRest cs cs' h
  have fields : ∀ j, KeysFit ["app_id", "hmi_app_id", "capabilities"] (some "capabilities" :: ms.map Prod.fst) →
      fields? ["app_id", "hmi_app_id", "capabilities"] (.object ((some "capabilities", j) :: ms)) =
        some [under ms "app_id", under ms "hmi_app_id", some j] := fun j fit => fields?_of_fit fit
  by_cases fit : KeysFit ["app_id", "hmi_app_id", "capabilities"] (some "capabilities" :: ms.map Prod.fst)
  · rw [ofJson?, ofJson?, fields _ fit, fields _ fit]
    cases under ms "app_id" <;> cases under ms "hmi_app_id" <;> simp only [orDefault, same]
  · rw [ofJson?, ofJson?, fields?_of_not_fit fit, fields?_of_not_fit fit]

/-! ### Events -/

namespace Event
variable {e : Event} {tag : String} {ms ms' : List (Str × Json)} {content : Json}

theorem ofTag?_eq_none (unknown : ∀ e : Event, e.tag ≠ tag) : ofTag? tag content = none := by
  unfold ofTag?
  split
  · exact absurd rfl (unknown .voiceStarted)
  · exact absurd rfl (unknown .voiceStopped)
  · exact absurd rfl (unknown .speechStarted)
  · exact absurd rfl (unknown .speechStopped)
  · exact absurd rfl (unknown (.signalled .other false))
  · exact absurd rfl (unknown (.streamingStarted ⟨0⟩))
  · exact absurd rfl (unknown (.streamingStopped ⟨0⟩))
  · exact absurd rfl (unknown (.appActivated ⟨0⟩))
  · exact absurd rfl (unknown (.appDeactivated ⟨0⟩))
  · exact absurd rfl (unknown (.activationAnswered ⟨0⟩ .unknown))
  · rfl

theorem ofApp?_fields (e : AppId → Event) (app : AppId) :
    ofApp? e (.ofMembers [("app_id", app.toJson)]) = some (e app) := by
  simp [ofApp?, fields?_ofMembers]

theorem ofTag?_fields (e : Event) : ofTag? e.tag (.ofMembers e.fields) = some e := by
  cases e with
  | voiceStarted => rfl
  | voiceStopped => rfl
  | speechStarted => rfl
  | speechStopped => rfl
  | signalled signal active => simp [tag, Event.fields, ofTag?, fields?_ofMembers, bool?]
  | streamingStarted app => exact ofApp?_fields .streamingStarted app
  | streamingStopped app => exact ofApp?_fields .streamingStopped app
  | appActivated app => exact ofApp?_fields .appActivated app
  | appDeactivated app => exact ofApp?_fields .appDeactivated app
  | activationAnswered id answer => simp [tag, Event.fields, ofTag?, fields?_ofMembers]

/-- What an event of a tag is made of does not depend on the order of the members, nor on those that it does not
    have. -/
theorem ofTag?_rearranged (h : Rearranged (e.fields.map Prod.fst) ms ms') :
    ofTag? e.tag (.object ms') = ofTag? e.tag (.object ms) := by
  have fields := fields?_rearranged h
  cases e <;> simp only [Event.fields, List.map_cons, List.map_nil] at fields <;>
    simp [tag, ofTag?, plain?, ofApp?, fields]

theorem key_ne_type (e : Event) : ∀ m ∈ e.fields.map fun m => ((some m.1, m.2) : Str × Json), m.1 ≠ some "type" := by
  cases e <;> simp [Event.fields]

theorem isStorable_toJson (e : Event) : isStorable depthLimit e.toJson = true := by
  have flat : ∀ m ∈ e.fields, isStorable (depthLimit - 1) m.2 = true := by
    cases e <;> simp [Event.fields, isStorable]
  rw [toJson, ofMembers, depthLimit, isStorable]
  simpa [isStorable, ofString, depthLimit] using flat

@[simp] theorem ofJson?_toJson (e : Event) : ofJson? e.toJson = some e := by
  have tag : ((("type", ofString e.tag) :: e.fields).map fun m => (some m.1, m.2)).filter
      (fun m => m.1 = some "type") = [(some "type", ofString e.tag)] := by
    rw [List.map_cons, List.filter_cons_of_pos (by simp),
      List.filter_eq_nil_iff.mpr fun m hm => by simpa using e.key_ne_type m hm]
  have content : ((("type", ofString e.tag) :: e.fields).map fun m => (some m.1, m.2)).filter
      (fun m => m.1 ≠ some "type") = e.fields.map fun m => (some m.1, m.2) := by
    rw [List.map_cons, List.filter_cons_of_neg (by simp),
      List.filter_eq_self.mpr fun m hm => decide_eq_true (e.key_ne_type m hm)]
  have storable := e.isStorable_toJson
  rw [toJson, ofMembers] at storable ⊢
  rw [ofJson?, if_pos storable]
  simp only [tag, content]
  exact ofTag?_fields e

theorem ofJson?_rearranged (tagged : (some "type", .ofString e.tag) ∈ ms)
    (h : RearrangedStorably ("type" :: e.fields.map Prod.fst) ms ms') :
    ofJson? (.object ms') = ofJson? (.object ms) := by
  have perm := h.rearranged.filter_perm List.mem_cons_self
  have tag_mem : (some "type", ofString e.tag) ∈ ms.filter fun m => m.1 = some "type" :=
    List.mem_filter.mpr ⟨tagged, decide_eq_true rfl⟩
  have content := (h.rearranged.mono fun _ => List.mem_cons_of_mem _).filter fun m => m.1 ≠ some "type"
  unfold ofJson?
  rw [h.isStorable_eq]
  split
  · dsimp only
    generalize ms.filter (fun m => m.1 = some "type") = tags at perm tag_mem
    generalize ms'.filter (fun m => m.1 = some "type") = tags' at perm
    match tags with
    | [] => cases tag_mem
    | [m] =>
      obtain rfl := List.mem_singleton.mp tag_mem
      obtain rfl := List.perm_singleton.mp perm
      exact ofTag?_rearranged content
    | _ :: _ :: _ =>
      -- The tag stands there twice, in one order as in the other.
      match tags', perm.length_eq with
      | _ :: _ :: _, _ => simp
  · rfl

/-- What cannot be stored is refused, wherever it stands. -/
theorem ofJson?_eq_none_of_unstorable {m : Str × Json} (hm : m ∈ ms)
    (unstorable : isStorable (depthLimit - 1) m.2 = false) : ofJson? (.object ms) = none := by
  refine if_neg fun storable => ?_
  have all : (ms.all fun m => m.1.isSome && isStorable (depthLimit - 1) m.2) = true := storable
  have storable := (Bool.and_eq_true_iff.mp (List.all_eq_true.mp all m hm)).2
  exact Bool.false_ne_true (unstorable.symm.trans storable)

theorem ofJson?_object_eq_none (unknown : ∀ e : Event, e.tag ≠ tag) (tagged : (some "type", .ofString tag) ∈ ms) :
    ofJson? (.object ms) = none := by
  have tag_mem : (some "type", ofString tag) ∈ ms.filter fun m => m.1 = some "type" :=
    List.mem_filter.mpr ⟨tagged, decide_eq_true rfl⟩
  unfold ofJson?
  split
  · dsimp only
    split
    · next other e =>
      rw [e, List.mem_singleton] at tag_mem
      cases tag_mem
      exact ofTag?_eq_none unknown
    · rfl
  · rfl

theorem ofJson?_array_eq_none (unknown : ∀ e : Event, e.tag ≠ tag) (content : List Json) :
    ofJson? (.array (.ofString tag :: content)) = none := by
  unfold ofJson?
  split
  · exact ofTag?_eq_none unknown
  · rfl

end Event

/-! ### What is written is read -/

/-- So many arrays, each in the one before. -/
def Json.nested : Nat → Json
  | 0 => .null
  | n + 1 => .array [nested n]

@[simp] theorem Json.isStorable_nested (n depth : Nat) : isStorable depth (nested n) = decide (n ≤ depth) := by
  induction n generalizing depth with
  | zero => simp [nested, isStorable]
  | succ n ih => cases depth <;> simp [nested, isStorable, ih]

/-- The reader gives back every value from what is written of it. -/
def Undoes {α : Type} (read? : Json → Option α) (write : α → Json) : Prop := ∀ a, read? (write a) = some a

/-- Values of all types are read again from what is written of them. The members of a record may be rearranged,
    those of an event with such among them that can be stored. An unknown name is read as a marker, but an
    unknown overlay and an event with an unknown tag are refused. -/
theorem reads_what_is_written :
    ((Undoes Event.ofJson? Event.toJson ∧ Undoes Status.ofJson? Status.toJson ∧ Undoes Layer.ofJson? Layer.toJson ∧
        Undoes Profile.ofJson? Profile.toJson ∧ Undoes Capabilities.ofJson? Capabilities.toJson ∧
        ∀ k : IdentKind, Undoes (Ident.ofJson? (k := k)) Ident.toJson) ∧
      ∀ source, Undoes (Named.ofJson? source (α := Answer)) Named.toJson ∧
        Undoes (Named.ofJson? source (α := Signal)) Named.toJson ∧
        Undoes (Named.ofJson? source (α := Level)) Named.toJson ∧
        Undoes (Named.ofJson? source (α := Audio)) Named.toJson ∧
        Undoes (Named.ofJson? source (α := Video)) Named.toJson ∧
        Undoes (Named.ofJson? source (α := Context)) Named.toJson) ∧
      (IgnoresRest ["level", "audio", "video", "context", "kind"] Status.ofJson? ∧
        IgnoresRest ["media", "navigation", "projection", "voice_communication"] Capabilities.ofJson? ∧
        IgnoresRest ["app_id", "hmi_app_id", "capabilities"] Profile.ofJson? ∧
        (∀ cs cs' ms, Rearranged ["media", "navigation", "projection", "voice_communication"] cs cs' →
          Profile.ofJson? (.object ((some "capabilities", .object cs') :: ms)) =
            Profile.ofJson? (.object ((some "capabilities", .object cs) :: ms))) ∧
        (∀ (e : Event) (ms ms' : List (Str × Json)), (some "type", .ofString e.tag) ∈ ms →
          RearrangedStorably ("type" :: e.fields.map Prod.fst) ms ms' →
            Event.ofJson? (.object ms') = Event.ofJson? (.object ms)) ∧
        ∀ ms, ∀ m ∈ ms, isStorable (depthLimit - 1) m.2 = false → Event.ofJson? (.object ms) = none) ∧
      (FallsBack Level.invalid ∧ FallsBack Audio.invalid ∧ FallsBack Video.invalid ∧ FallsBack Context.invalid ∧
        FallsBack Signal.other ∧ FallsBack Answer.unknown) ∧
      (∀ s, (∀ k : Overlay, Named.name k ≠ s) →
        (∀ source, (Named.ofJson? source (.ofString s) : Option Overlay) = none) ∧
        Layer.ofJson? (.ofMembers [("overlay", .ofString s)]) = none) ∧
      ∀ tag, (∀ e : Event, e.tag ≠ tag) →
        (∀ ms, (some "type", .ofString tag) ∈ ms → Event.ofJson? (.object ms) = none) ∧
        ∀ content, Event.ofJson? (.array (.ofString tag :: content)) = none := by
  refine ⟨⟨⟨Event.ofJson?_toJson, Status.ofJson?_toJson, Layer.ofJson?_toJson, Profile.ofJson?_toJson,
      Capabilities.ofJson?_toJson, fun k => Ident.ofJson?_toJson⟩, fun source => ?_⟩,
    ⟨Status.ignoresRest, Capabilities.ignoresRest, Profile.ignoresRest,
      fun cs cs' ms => Profile.ofJson?_rearranged_capabilities, fun e ms ms' => Event.ofJson?_rearranged,
      fun ms m => Event.ofJson?_eq_none_of_unstorable⟩,
    ?_, fun s unknown => ?_, fun tag unknown => ?_⟩
  · exact ⟨Named.ofJson?_toJson source, Named.ofJson?_toJson source, Named.ofJson?_toJson source,
      Named.ofJson?_toJson source, Named.ofJson?_toJson source, Named.ofJson?_toJson source⟩
  · exact ⟨Named.fallsBack rfl, Named.fallsBack rfl, Named.fallsBack rfl, Named.fallsBack rfl, Named.fallsBack rfl,
      Named.fallsBack rfl⟩
  · exact ⟨fun source => Named.ofJson?_eq_none rfl unknown, Layer.ofJson?_overlay_eq_none unknown⟩
  · exact ⟨fun ms => Event.ofJson?_object_eq_none unknown, Event.ofJson?_array_eq_none unknown⟩

/-- Members in reverse order behind one that nobody knows, and names and tags that nobody knows. -/
theorem reads_what_is_written_backwards :
    Event.ofJson? (.object [(some "x", nested 126), (some "app_id", ofNat 7),
        (some "type", ofString "app_activated")]) = some (.appActivated ⟨7⟩) ∧
      Capabilities.ofJson? (.object [(some "x", nested 500), (some "voice_communication", .bool false),
        (some "projection", .bool false), (some "navigation", .bool false), (some "media", .bool true)]) =
          some { media := true } ∧
      (Named.ofJson? .stored (ofString "full") = some Level.invalid ∧
        Named.ofJson? .text (ofString "Unknown") = some Answer.unknown) ∧
      (Named.ofJson? .text (ofString "TAXI") : Option Overlay) = none ∧
      Event.ofJson? (.ofMembers [("type", ofString "vr_paused")]) = none := by
  obtain ⟨⟨⟨event, -, -, -, capabilities, -⟩, -⟩, ⟨-, rest, -, -, members, -⟩, ⟨level, -, -, -, -, answer⟩,
    overlay, tag⟩ := reads_what_is_written
  refine ⟨?_, ?_, ⟨level _ _ fun l other => ?_, answer _ _ fun a other => ?_⟩, (overlay _ fun k => ?_).1 _,
    (tag "vr_paused" fun e => ?_).1 _ List.mem_cons_self⟩
  · have foreign : IsForeign ["type", "app_id"] (some "x", nested 126) := ⟨"x", by simp, rfl⟩
    refine (members (.appActivated ⟨7⟩) [(some "type", ofString "app_activated"), (some "app_id", ofNat 7)] _
      List.mem_cons_self ⟨[(some "x", nested 126)], List.reverse_perm _, fun m hm => ?_⟩).trans
        (event (.appActivated ⟨7⟩))
    rw [List.mem_singleton.mp hm]
    exact ⟨foreign, isStorable_nested 126 126⟩
  · have foreign : IsForeign ["media", "navigation", "projection", "voice_communication"] (some "x", nested 500) :=
      ⟨"x", by simp, rfl⟩
    exact (rest [(some "media", .bool true), (some "navigation", .bool false), (some "projection", .bool false),
      (some "voice_communication", .bool false)] _ ⟨[(some "x", nested 500)], List.reverse_perm _,
        fun m hm => List.mem_singleton.mp hm ▸ foreign⟩).trans (capabilities { media := true })
  · cases l <;> simp [Named.name, Level.wireName] at other ⊢
  · cases a <;> simp [Named.name, Answer.wireName] at other ⊢
  · cases k <;> simp [Named.name, Overlay.wireName]
  · cases e <;> simp [Event.tag]

/-- A member too deep to be stored keeps an event from being read, although nobody asks for it. Nor is a string
    read that denotes no text. -/
theorem reads_no_deep_member :
    let ms : List (Str × Json) := [(some "type", ofString "vr_started")]
    let ms' := ms ++ [(some "x", nested 127)]
    Rearranged ["type"] ms ms' ∧ Event.ofJson? (.object ms) = some .voiceStarted ∧ Event.ofJson? (.object ms') = none ∧
      (Named.ofJson? .text (.string none) : Option Level) = none := by
  intro ms ms'
  have foreign : IsForeign ["type"] (some "x", nested 127) := ⟨"x", by simp, rfl⟩
  have deep : isStorable (depthLimit - 1) (nested 127) = false := by
    rw [isStorable_nested]
    rfl
  exact ⟨⟨_, .refl _, fun m hm => List.mem_singleton.mp hm ▸ foreign⟩, Event.ofJson?_toJson .voiceStarted,
    Event.ofJson?_eq_none_of_unstorable (List.mem_append_right ms (List.mem_singleton_self _)) deep, rfl⟩

end HeadUnit
