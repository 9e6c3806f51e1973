import HeadUnit.Ident
import Mathlib.Data.List.DropRight
import Mathlib.Data.Nat.Digits.Defs

/-! Numerals between blanks, as identifiers and settings are written. The grammar is said here without any
    reading: what stands between the blanks at both ends, and which number a sign and digits denote. Main
    statement: an identifier is read from the texts of this grammar and from no others, and the fault of any other
    text tells whether there was anything to read. -/

namespace HeadUnit

namespace Text
variable {cs t before after : List Char} {n bound : Nat}

/-! ### Blanks at both ends -/

/-- The text is what stands between the blanks at both ends. -/
def IsCore (cs t : List Char) : Prop :=
  ∃ before after, cs = before ++ t ++ after ∧ (∀ c ∈ before ++ after, isBlank c = true) ∧
    (∀ c ∈ t.head?, isBlank c = false) ∧ ∀ c ∈ t.getLast?, isBlank c = false

theorem isBlank_head?_dropWhile (cs : List Char) : ∀ c ∈ (cs.dropWhile isBlank).head?, isBlank c = false := by
  intro c first
  have stops := List.head?_dropWhile_not isBlank cs
  rwa [Option.mem_def.mp first] at stops

theorem dropWhile_append_of_head? (blank : ∀ c ∈ before, isBlank c = true)
    (begins : ∀ c ∈ t.head?, isBlank c = false) : (before ++ t).dropWhile isBlank = t := by
  rw [List.dropWhile_append_of_pos blank]
  cases t with
  | nil => rfl
  | cons c t => exact List.dropWhile_cons_of_neg (by simp [begins c rfl])

theorem isCore_trim (cs : List Char) : IsCore cs (trim cs) := by
  let rest := cs.dropWhile isBlank
  have split : trim cs ++ rest.rtakeWhile isBlank = rest := List.rdropWhile_append_rtakeWhile
  refine ⟨cs.takeWhile isBlank, rest.rtakeWhile isBlank, ?_, fun c hc => ?_, fun c first => ?_, fun c last => ?_⟩
  · rw [List.append_assoc, split, List.takeWhile_append_dropWhile]
  · rcases List.mem_append.mp hc with hc | hc
    · exact List.mem_takeWhile_imp hc
    · exact List.mem_rtakeWhile_imp hc
  · -- What is left begins as it did before the blanks at its end were cut away.
    refine isBlank_head?_dropWhile cs c ?_
    change rest.head? = some c
    rw [← split, List.head?_append, Option.mem_def.mp first, Option.some_or]
  · refine isBlank_head?_dropWhile rest.reverse c ?_
    rwa [trim, List.getLast?_reverse] at last

theorem IsCore.trim_eq (h : IsCore cs t) : trim cs = t := by
  obtain ⟨before, after, rfl, blank, begins, ends⟩ := h
  have blank_before : ∀ c ∈ before, isBlank c = true := fun c hc => blank c (List.mem_append_left _ hc)
  have blank_after : ∀ c ∈ after, isBlank c = true := fun c hc => blank c (List.mem_append_right _ hc)
  cases t with
  | nil => simp [trim, List.dropWhile_append_of_pos blank_before, List.dropWhile_eq_nil_iff.mpr blank_after]
  | cons c t =>
    have cut : (before ++ (c :: t ++ after)).dropWhile isBlank = c :: t ++ after :=
      dropWhile_append_of_head? blank_before begins
    rw [trim, List.append_assoc, cut, List.reverse_append,
      dropWhile_append_of_head? (fun c hc => blank_after c (List.mem_reverse.mp hc)) (by rwa [List.head?_reverse]),
      List.reverse_reverse]

theorem trim_eq_iff : trim cs = t ↔ IsCore cs t :=
  ⟨fun e => e ▸ isCore_trim cs, IsCore.trim_eq⟩

theorem trim_eq_nil_iff : trim cs = [] ↔ ∀ c ∈ cs, isBlank c = true := by
  rw [trim_eq_iff]
  constructor
  · rintro ⟨before, after, rfl, blank, -⟩
    simpa using blank
  · exact fun blank => ⟨cs, [], by simp, by simpa using blank, by simp, by simp⟩

/-- Blanks around a text do not matter. -/
theorem trim_pad (blank : ∀ c ∈ before ++ after, isBlank c = true) (cs : List Char) :
    trim (before ++ cs ++ after) = trim cs := by
  obtain ⟨before', after', e, blank', ends⟩ := isCore_trim cs
  refine IsCore.trim_eq ⟨before ++ before', after' ++ after, ?_, fun c hc => ?_, ends⟩
  · conv_lhs => rw [e]
    simp only [List.append_assoc]
  · simp only [List.mem_append] at hc blank blank'
    rcases hc with (hc | hc) | hc | hc
    · exact blank c (Or.inl hc)
    · exact blank' c (Or.inl hc)
    · exact blank' c (Or.inr hc)
    · exact blank c (Or.inr hc)

/-! ### Numerals -/

/-- The text denotes the number: at most one plus sign, then decimal digits, at least one and nothing else. -/
def Denotes (t : List Char) (n : Nat) : Prop :=
  ∃ sign ds, t = sign ++ ds ∧ (sign = [] ∨ sign = ['+']) ∧ ds ≠ [] ∧ (∀ d ∈ ds, '0' ≤ d ∧ d ≤ '9') ∧
    Nat.ofDigits 10 (ds.map fun d => d.toNat - '0'.toNat).reverse = n

theorem isDigit_iff {c : Char} : c.isDigit = true ↔ '0' ≤ c ∧ c ≤ '9' := by
  simp only [Char.isDigit, Bool.and_eq_true, decide_eq_true_eq]
  rfl

theorem digitsValue_eq (ds : List Char) :
    digitsValue ds = Nat.ofDigits 10 (ds.map fun d => d.toNat - '0'.toNat).reverse := by
  rw [digitsValue, Nat.ofDigits_eq_foldr, List.foldr_reverse, List.foldl_map]
  congr 1
  funext n d
  exact Nat.add_comm _ _

theorem exists_sign (t : List Char) : ∃ sign, t = sign ++ unsigned t ∧ (sign = [] ∨ sign = ['+']) := by
  unfold unsigned
  split
  · exact ⟨['+'], rfl, Or.inr rfl⟩
  · exact ⟨[], rfl, Or.inl rfl⟩

theorem unsigned_of_isDigit {ds : List Char} (digits : ∀ d ∈ ds, d.isDigit = true) : unsigned ds = ds := by
  unfold unsigned
  split
  · exact absurd (digits '+' List.mem_cons_self) (by decide)
  · rfl

theorem unsigned_append {sign ds : List Char} (signed : sign = [] ∨ sign = ['+'])
    (digits : ∀ d ∈ ds, d.isDigit = true) : unsigned (sign ++ ds) = ds := by
  rcases signed with rfl | rfl
  · exact unsigned_of_isDigit digits
  · rfl

theorem numeral?_eq_some_iff : numeral? bound t = some n ↔ Denotes t n ∧ n ≤ bound := by
  simp only [numeral?, Option.ite_none_right_eq_some, Option.some.injEq, List.all_eq_true]
  constructor
  · rintro ⟨⟨nonempty, digits, le⟩, rfl⟩
    obtain ⟨sign, e, signed⟩ := exists_sign t
    exact ⟨⟨sign, unsigned t, e, signed, nonempty, fun d hd => isDigit_iff.mp (digits d hd),
      (digitsValue_eq _).symm⟩, le⟩
  · rintro ⟨⟨sign, ds, rfl, signed, nonempty, digits, rfl⟩, le⟩
    have digits : ∀ d ∈ ds, d.isDigit = true := fun d hd => isDigit_iff.mpr (digits d hd)
    rw [unsigned_append signed digits, digitsValue_eq]
    exact ⟨⟨nonempty, digits, le⟩, rfl⟩

theorem numeral?_eq_none_iff : numeral? bound t = none ↔ ¬ ∃ n, Denotes t n ∧ n ≤ bound := by
  simp only [Option.eq_none_iff_forall_ne_some, ne_eq, numeral?_eq_some_iff, not_exists]

/-- A text denotes one number at most. -/
theorem Denotes.unique {m : Nat} (hm : Denotes t m) (hn : Denotes t n) : m = n := by
  have first := numeral?_eq_some_iff.mpr ⟨hm, Nat.le_max_left m n⟩
  have second := numeral?_eq_some_iff.mpr ⟨hn, Nat.le_max_right m n⟩
  exact Option.some.inj (first.symm.trans second)

/-! ### The decimal form -/

@[simp] theorem digitsValue_toDigits (n : Nat) : digitsValue (Nat.toDigits 10 n) = n :=
  Nat.ofDigitChars_toDigits (by decide) (by decide)

theorem denotes_toDigits (n : Nat) : Denotes (Nat.toDigits 10 n) n := by
  refine ⟨[], Nat.toDigits 10 n, rfl, Or.inl rfl, Nat.toDigits_ne_nil, fun d hd => ?_, ?_⟩
  · exact isDigit_iff.mp (Nat.isDigit_of_mem_toDigits (by decide) (by decide) hd)
  · rw [← digitsValue_eq, digitsValue_toDigits]

theorem Denotes.ne_nil (h : Denotes t n) : t ≠ [] := by
  obtain ⟨sign, ds, rfl, -, nonempty, -⟩ := h
  exact List.append_ne_nil_of_right_ne_nil sign nonempty

theorem Denotes.mem_cases (h : Denotes t n) {c : Char} (hc : c ∈ t) : c = '+' ∨ '0' ≤ c ∧ c ≤ '9' := by
  obtain ⟨sign, ds, rfl, signed, -, digits, -⟩ := h
  rcases List.mem_append.mp hc with hc | hc
  · rcases signed with rfl | rfl
    · cases hc
    · exact Or.inl (List.mem_singleton.mp hc)
  · exact Or.inr (digits c hc)

/-- No blank is part of a numeral. -/
theorem Denotes.isBlank_eq_false (h : Denotes t n) {c : Char} (hc : c ∈ t) : isBlank c = false := by
  have plain : ∀ m < 58, 48 ≤ m → (blankRanges.any fun r => decide (r.1 ≤ m) && decide (m ≤ r.2)) = false := by decide
  rcases h.mem_cases hc with rfl | ⟨low, high⟩
  · decide
  · exact plain c.toNat (Nat.lt_succ_of_le high) low

theorem Denotes.isCore (h : Denotes t n) : IsCore t t :=
  ⟨[], [], by simp, by simp, fun c hc => h.isBlank_eq_false (List.mem_of_mem_head? hc),
    fun c hc => h.isBlank_eq_false (List.mem_of_mem_getLast? hc)⟩

end Text

/-! ### Identifiers -/

namespace Ident
variable {k : IdentKind}
open Text

theorem toList_text (i : Ident k) : i.text.toList = Nat.toDigits 10 i.number.toNat := by
  rw [text, Nat.toString_eq_repr, Nat.toList_repr]

theorem number_le (i : Ident k) : i.number.toNat ≤ UInt32.size - 1 := Nat.le_pred_of_lt i.number.toNat_lt

theorem toNat_ofNat_of_le {n : Nat} (fits : n ≤ UInt32.size - 1) : (UInt32.ofNat n).toNat = n :=
  UInt32.toNat_ofNat_of_lt' (Nat.lt_of_le_pred (by decide) fits)

/-- A text is blank, or it holds a numeral that fits, or it holds something else. -/
theorem ofText_cases (k : IdentKind) (s : String) :
    (trim s.toList = [] ∧ (ofText s : Except IdentFault (Ident k)) = .error .blank) ∨
      (∃ n, Denotes (trim s.toList) n ∧ n ≤ UInt32.size - 1 ∧ ofText s = .ok (⟨UInt32.ofNat n⟩ : Ident k)) ∨
      (trim s.toList ≠ [] ∧ (¬ ∃ n, Denotes (trim s.toList) n ∧ n ≤ UInt32.size - 1) ∧
        (ofText s : Except IdentFault (Ident k)) = .error (.notNumeric (String.ofList (trim s.toList)))) := by
  unfold ofText
  split
  · next e => exact Or.inl ⟨e, rfl⟩
  · next c cs e =>
    rw [e]
    cases read : numeral? (UInt32.size - 1) (c :: cs) with
    | some n =>
      obtain ⟨denotes, fits⟩ := numeral?_eq_some_iff.mp read
      exact Or.inr (Or.inl ⟨n, denotes, fits, rfl⟩)
    | none => exact Or.inr (Or.inr ⟨List.cons_ne_nil c cs, numeral?_eq_none_iff.mp read, rfl⟩)

/-- Of a text with a numeral that fits nothing but its number is read. -/
theorem ofText_eq_ok_iff {s : String} {i : Ident k} : ofText s = .ok i ↔ Denotes (trim s.toList) i.number.toNat := by
  rcases ofText_cases k s with ⟨empty, e⟩ | ⟨n, denotes, le, e⟩ | ⟨-, other, e⟩
  · rw [e]
    exact ⟨fun h => (by cases h), fun h => absurd empty h.ne_nil⟩
  · rw [e]
    constructor
    · intro h
      cases h
      rwa [toNat_ofNat_of_le le]
    · intro h
      rw [denotes.unique h, UInt32.ofNat_toNat]
  · rw [e]
    exact ⟨fun h => (by cases h), fun h => absurd ⟨_, h, i.number_le⟩ other⟩

theorem ofText_eq_blank_iff {s : String} :
    (ofText s : Except IdentFault (Ident k)) = .error .blank ↔ ∀ c ∈ s.toList, isBlank c = true := by
  rw [← trim_eq_nil_iff]
  rcases ofText_cases k s with ⟨empty, e⟩ | ⟨n, denotes, -, e⟩ | ⟨nonempty, -, e⟩
  · exact iff_of_true e empty
  · rw [e]
    exact iff_of_false (fun h => by cases h) denotes.ne_nil
  · rw [e]
    exact iff_of_false (fun h => by cases h) nonempty

theorem ofText_eq_notNumeric_iff {s text : String} :
    (ofText s : Except IdentFault (Ident k)) = .error (.notNumeric text) ↔
      trim s.toList = text.toList ∧ text.toList ≠ [] ∧ ¬ ∃ n, Denotes text.toList n ∧ n ≤ UInt32.size - 1 := by
  rcases ofText_cases k s with ⟨empty, e⟩ | ⟨n, denotes, fits, e⟩ | ⟨nonempty, other, e⟩
  · rw [e]
    exact iff_of_false (fun h => by cases h) fun ⟨same, nonempty, _⟩ => nonempty (same ▸ empty)
  · rw [e]
    exact iff_of_false (fun h => by cases h) fun ⟨same, _, other⟩ => other ⟨n, same ▸ denotes, fits⟩
  · rw [e]
    constructor
    · intro h
      cases h
      rw [String.toList_ofList]
      exact ⟨rfl, nonempty, other⟩
    · rintro ⟨same, -, -⟩
      rw [same, String.ofList_toList]

/-- An identifier is read from a text that holds, between blanks, a numeral of its number, and from no other. A
    text of blanks only is found to be blank, and any other that holds no such numeral is given back without
    the blanks around it. So every identifier is read from its decimal form, whatever the blanks around it. -/
theorem ofText_by_grammar (k : IdentKind) (s : String) :
    (∀ n, (∃ i : Ident k, ofText s = .ok i ∧ i.number.toNat = n) ↔
        ∃ t, IsCore s.toList t ∧ Denotes t n ∧ n ≤ UInt32.size - 1) ∧
      ((ofText s : Except IdentFault (Ident k)) = .error .blank ↔ ∀ c ∈ s.toList, isBlank c = true) ∧
      (∀ text : String, (ofText s : Except IdentFault (Ident k)) = .error (.notNumeric text) ↔
        IsCore s.toList text.toList ∧ text.toList ≠ [] ∧ ¬ ∃ n, Denotes text.toList n ∧ n ≤ UInt32.size - 1) ∧
      ∀ (i : Ident k) (before after : String), (∀ c ∈ before.toList ++ after.toList, isBlank c = true) →
        ofText (before ++ i.text ++ after) = .ok i := by
  refine ⟨fun n => ⟨?_, ?_⟩, ofText_eq_blank_iff, fun text => ?_, fun i before after blank => ?_⟩
  · rintro ⟨i, read, rfl⟩
    exact ⟨_, isCore_trim _, ofText_eq_ok_iff.mp read, i.number_le⟩
  · rintro ⟨t, core, denotes, fits⟩
    refine ⟨⟨UInt32.ofNat n⟩, ofText_eq_ok_iff.mpr ?_, toNat_ofNat_of_le fits⟩
    rwa [core.trim_eq, toNat_ofNat_of_le fits]
  · rw [← trim_eq_iff]
    exact ofText_eq_notNumeric_iff
  · have denotes := denotes_toDigits i.number.toNat
    rw [ofText_eq_ok_iff, String.toList_append, String.toList_append, trim_pad blank, toList_text,
      denotes.isCore.trim_eq]
    exact denotes

/-- A sign and leading zeros do not count towards the bound; a blank behind the sign is one too many. -/
theorem ofText_by_grammar_leading_zeros :
    (∃ i : AppId, ofText "\t+0004294967295\u3000" = .ok i ∧ i.number.toNat = 4294967295) ∧
      (ofText " + 7\n" : Except IdentFault AppId) = .error (.notNumeric "+ 7") ∧
      ofText ("\u00a0" ++ (⟨314⟩ : AppId).text ++ "  ") = .ok (⟨314⟩ : AppId) := by
  have core : IsCore "\t+0004294967295\u3000".toList "+0004294967295".toList := trim_eq_iff.mp (by decide)
  have read : numeral? (UInt32.size - 1) "+0004294967295".toList = some 4294967295 := by decide
  have spaced : IsCore " + 7\n".toList "+ 7".toList := trim_eq_iff.mp (by decide)
  have other : ¬ ∃ n, Denotes "+ 7".toList n ∧ n ≤ UInt32.size - 1 := numeral?_eq_none_iff.mp (by decide)
  refine ⟨((ofText_by_grammar .app _).1 _).mpr ⟨_, core, numeral?_eq_some_iff.mp read⟩,
    ((ofText_by_grammar .app _).2.2.1 _).mpr ⟨spaced, by decide, other⟩,
    (ofText_by_grammar .app "").2.2.2 ⟨314⟩ _ _ (List.all_eq_true.mp (by decide))⟩

end Ident

end HeadUnit
