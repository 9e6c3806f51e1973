import HeadUnit.Activation.Pending
import Mathlib.Data.List.Basic
import Mathlib.Data.List.Perm.Basic

/-! When a pending activation expires. A sweep and an answer go by the same age, so a sweep takes exactly the
    activations that a successful answer would find too late, and it makes no difference how often the table was swept
    before. The age counts whole seconds and loses the rest: from its request on an activation expires when its
    timeout has passed, to the millisecond, but one whose request still lies less than a second ahead counts as
    just made. -/

namespace HeadUnit

/-! ### Ages -/

namespace Activation
variable {a : Activation} {now earlier : Moment} {timeout : Option UInt64} {t : UInt64}

theorem age_of_past (h : a.askedAt ≤ now) : a.age now = (now - a.askedAt) / 1000 :=
  Int.tdiv_eq_ediv_of_nonneg (Int.sub_nonneg_of_le h)

/-- The age of a request that lies ahead is negative, and rounded up towards zero. -/
theorem age_of_ahead (h : now < a.askedAt) : a.age now = -((a.askedAt - now) / 1000) := by
  rw [age, ← Int.neg_sub a.askedAt now, Int.neg_tdiv,
    Int.tdiv_eq_ediv_of_nonneg (Int.sub_nonneg_of_le (Int.le_of_lt h))]

theorem isExpired_some_iff : a.isExpired now (some t) = true ↔ 1000 * (t.toNat : Int) ≤ now - a.askedAt ∨
    (t = 0 ∧ now < a.askedAt ∧ a.askedAt < now + 1000) := by
  have zero : t = 0 ↔ t.toNat = 0 := by simp [← UInt64.toNat_inj]
  rw [zero]
  simp only [isExpired, Bool.and_eq_true, decide_eq_true_eq]
  rcases Int.lt_or_le now a.askedAt with ahead | past
  · rw [age_of_ahead ahead]
    unfold Moment at *
    omega
  · rw [age_of_past past]
    unfold Moment at *
    omega

/-- What has expired stays so. -/
theorem isExpired_mono (le : earlier ≤ now) (h : a.isExpired earlier timeout = true) :
    a.isExpired now timeout = true := by
  cases timeout with
  | none => cases h
  | some t =>
    refine isExpired_some_iff.mpr ?_
    rcases isExpired_some_iff.mp h with passed | ⟨rfl, ahead, near⟩
    · unfold Moment at *
      omega
    · simp only [UInt64.toNat_zero, true_and]
      unfold Moment at *
      omega

theorem isExpired_eq_false_of_le (le : earlier ≤ now) (h : a.isExpired now timeout = false) :
    a.isExpired earlier timeout = false := by
  refine Bool.eq_false_iff.mpr fun early => ?_
  rw [isExpired_mono le early] at h
  cases h

end Activation

/-! ### Sweeps -/

namespace Pending
variable {p q : Pending} {id : CorrelationId} {a : Activation} {answer : Answer} {now earlier : Moment}
  {timeout : Option UInt64} {r : CorrelationId × Activation} {rows rows' : List (CorrelationId × Activation)}

/-- An answer comes too late exactly for an activation that has expired. -/
theorem resolution_eq_expired_iff : p.resolution id answer now timeout = .error (.expired id) ↔
    ∃ a, p.find? id = some a ∧ answer.isSuccess = true ∧ a.isExpired now timeout = true := by
  unfold resolution
  cases p.find? id with
  | none => simp
  | some a => cases success : answer.isSuccess <;> cases late : a.isExpired now timeout <;> simp [late]

theorem resolve_eq_expired_iff (found : p.find? id = some a) :
    (p.resolve id .success now timeout).1 = .error (.expired id) ↔ a.isExpired now timeout = true := by
  change p.resolution id .success now timeout = _ ↔ _
  rw [resolution_eq_expired_iff, found]
  simp [Answer.isSuccess]

theorem mem_expire : r ∈ (p.expire now timeout).1 ↔ r ∈ p.rows ∧ r.2.isExpired now timeout = true :=
  (sorted_perm _).mem_iff.trans List.mem_filter

theorem find?_expire : (p.expire now timeout).2.find? id = some a ↔
    p.find? id = some a ∧ a.isExpired now timeout = false := by
  change (p.filter _).find? id = some a ↔ _
  simp [find?_filter_eq_some_iff]

/-- Rows under different numbers come out in strictly ascending order. -/
theorem sorted_ascending (distinct : (rows.map Prod.fst).Nodup) :
    (sorted rows).Pairwise fun r s => r.1.number < s.1.number := by
  have ordered : (sorted rows).Pairwise fun r s => decide (r.1.number.toNat ≤ s.1.number.toNat) = true := by
    refine List.pairwise_mergeSort (fun r s t hrs hst => ?_) (fun r s => ?_) rows
    · simp only [decide_eq_true_eq] at hrs hst ⊢
      exact Nat.le_trans hrs hst
    · simpa using Nat.le_total _ _
  have apart : (sorted rows).Pairwise fun r s => r.1 ≠ s.1 :=
    List.pairwise_map.mp (((sorted_perm rows).map Prod.fst).nodup_iff.mpr distinct)
  refine ordered.imp₂ (fun r s le ne => ?_) apart
  have differ : r.1.number.toNat ≠ s.1.number.toNat := fun same => ne (by
    obtain ⟨⟨i⟩, _⟩ := r
    obtain ⟨⟨j⟩, _⟩ := s
    exact congrArg Ident.mk (UInt32.toNat_inj.mp same))
  exact UInt32.lt_iff_toNat_lt.mpr (Nat.lt_of_le_of_ne (by simpa using le) differ)

theorem sorted_eq_of_perm (distinct : (rows.map Prod.fst).Nodup) (perm : rows'.Perm rows) :
    sorted rows' = sorted rows := by
  have same : (sorted rows').Perm (sorted rows) := (sorted_perm rows').trans (perm.trans (sorted_perm rows).symm)
  refine same.eq_of_pairwise (fun r s _ _ lt gt => ?_)
    (sorted_ascending ((perm.map Prod.fst).nodup_iff.mpr distinct)) (sorted_ascending distinct)
  exact absurd (UInt32.lt_trans lt gt) (UInt32.lt_irrefl _)

theorem distinct_expired (p : Pending) (now : Moment) (timeout : Option UInt64) :
    ((p.rows.filter fun r => r.2.isExpired now timeout).map Prod.fst).Nodup :=
  (p.filter fun r => r.2.isExpired now timeout).distinct

theorem filter_filter_of_imp {keep keep' : CorrelationId × Activation → Bool}
    (imp : ∀ r, keep' r = true → keep r = true) (p : Pending) : (p.filter keep).filter keep' = p.filter keep' := by
  unfold filter
  congr 1
  rw [List.filter_filter]
  refine List.filter_congr fun r _ => ?_
  cases h : keep' r with
  | false => rfl
  | true => simp [imp r h]

theorem expire_of_perm (perm : q.rows.Perm p.rows) (now : Moment) (timeout : Option UInt64) :
    (q.expire now timeout).1 = (p.expire now timeout).1 ∧
      (q.expire now timeout).2.rows.Perm (p.expire now timeout).2.rows :=
  ⟨sorted_eq_of_perm (distinct_expired p now timeout) (perm.filter _), perm.filter _⟩

theorem expire_again (p : Pending) (now : Moment) (timeout : Option UInt64) :
    (p.expire now timeout).2.expire now timeout = ([], (p.expire now timeout).2) := by
  refine Prod.ext ?_ (filter_filter_of_imp (fun _ => id) p)
  refine List.eq_nil_iff_forall_not_mem.mpr fun r hr => ?_
  obtain ⟨stays, late⟩ := mem_expire.mp hr
  have fresh : (!r.2.isExpired now timeout) = true := (mem_filter_rows.mp stays).2
  rw [late] at fresh
  cases fresh

theorem expire_none (p : Pending) (now : Moment) : p.expire now none = ([], p) := by
  simp [expire, filter, sorted]

/-- What an earlier sweep takes, a later one would have taken. -/
theorem expire_earlier_pending (le : earlier ≤ now) (p : Pending) (timeout : Option UInt64) :
    ((p.expire earlier timeout).2.expire now timeout).2 = (p.expire now timeout).2 := by
  refine filter_filter_of_imp (fun r fresh => ?_) p
  rw [Bool.not_eq_true'] at fresh ⊢
  exact Activation.isExpired_eq_false_of_le le fresh

open List in
theorem expire_earlier_perm (le : earlier ≤ now) (p : Pending) (timeout : Option UInt64) :
    (p.expire earlier timeout).1 ++ ((p.expire earlier timeout).2.expire now timeout).1 ~
      (p.expire now timeout).1 := by
  -- Of the rows that have expired in the end, the first sweep takes those that had expired by then.
  have first : (p.rows.filter fun r => r.2.isExpired earlier timeout) =
      (p.rows.filter fun r => r.2.isExpired now timeout).filter fun r => r.2.isExpired earlier timeout := by
    rw [List.filter_filter]
    refine List.filter_congr fun r _ => ?_
    cases early : r.2.isExpired earlier timeout with
    | false => simp
    | true => simp [Activation.isExpired_mono le early]
  have second : ((p.rows.filter fun r => !r.2.isExpired earlier timeout).filter fun r => r.2.isExpired now timeout) =
      (p.rows.filter fun r => r.2.isExpired now timeout).filter fun r => !r.2.isExpired earlier timeout :=
    List.filter_comm ..
  calc (p.expire earlier timeout).1 ++ ((p.expire earlier timeout).2.expire now timeout).1
    _ ~ (p.rows.filter fun r => r.2.isExpired earlier timeout) ++
          (p.rows.filter fun r => !r.2.isExpired earlier timeout).filter fun r => r.2.isExpired now timeout :=
      (sorted_perm _).append (sorted_perm _)
    _ ~ p.rows.filter fun r => r.2.isExpired now timeout := by
      rw [first, second]
      exact List.filter_append_perm _ _
    _ ~ (p.expire now timeout).1 := (sorted_perm _).symm

/-- A sweep takes exactly the activations that a successful answer at that moment would find too late, in strictly
    ascending order of their numbers whatever the order of the rows, and leaves exactly the others as they are. When
    it is repeated nothing is left to take, an earlier sweep changes neither what is left in the end nor what is
    taken in all, and without a timeout nothing is ever taken. -/
theorem sweep_agrees_with_answers (p : Pending) (now : Moment) (timeout : Option UInt64) :
    (∀ id a, (id, a) ∈ (p.expire now timeout).1 ↔
        p.find? id = some a ∧ (p.resolve id .success now timeout).1 = .error (.expired id)) ∧
      ((p.expire now timeout).1.Pairwise fun r s => r.1.number < s.1.number) ∧
      (∀ q : Pending, q.rows.Perm p.rows → (q.expire now timeout).1 = (p.expire now timeout).1 ∧
        (q.expire now timeout).2.rows.Perm (p.expire now timeout).2.rows) ∧
      (∀ id a, (p.expire now timeout).2.find? id = some a ↔
        p.find? id = some a ∧ (p.resolve id .success now timeout).1 ≠ .error (.expired id)) ∧
      (p.expire now timeout).2.expire now timeout = ([], (p.expire now timeout).2) ∧
      (∀ earlier, earlier ≤ now →
        ((p.expire earlier timeout).2.expire now timeout).2 = (p.expire now timeout).2 ∧
          ((p.expire earlier timeout).1 ++ ((p.expire earlier timeout).2.expire now timeout).1).Perm
            (p.expire now timeout).1) ∧
      p.expire now none = ([], p) := by
  refine ⟨fun id a => ?_, sorted_ascending (distinct_expired p now timeout),
    fun q perm => expire_of_perm perm now timeout, fun id a => ?_, expire_again p now timeout,
    fun earlier le => ⟨expire_earlier_pending le p timeout, expire_earlier_perm le p timeout⟩, expire_none p now⟩
  · rw [mem_expire, ← find?_eq_some_iff]
    exact and_congr_right fun found => (resolve_eq_expired_iff found).symm
  · rw [find?_expire]
    refine and_congr_right fun found => ?_
    rw [ne_eq, resolve_eq_expired_iff found, Bool.not_eq_true]

/-- Three activations, entered in no order; the oldest would have been swept fifteen seconds earlier, the youngest
    is half a second short of the timeout. -/
theorem sweep_agrees_with_answers_three :
    let target : Status := ⟨.full, .audible, .notStreamable, .main, .regular⟩
    let oldest : Activation := ⟨⟨1⟩, ⟨11⟩, target, 0⟩
    let older : Activation := ⟨⟨2⟩, ⟨12⟩, target, 10000⟩
    let young : Activation := ⟨⟨1⟩, ⟨11⟩, target, 20500⟩
    let p := ((empty.insert ⟨2⟩ oldest).insert ⟨1⟩ older).insert ⟨3⟩ young
    let q := ((empty.insert ⟨1⟩ older).insert ⟨3⟩ young).insert ⟨2⟩ oldest
    q.rows.Perm p.rows ∧ (15000 : Moment) ≤ 30000 ∧
      (p.expire 30000 (some 10)).1 = [(⟨1⟩, older), (⟨2⟩, oldest)] ∧
      (q.expire 30000 (some 10)).1 = [(⟨1⟩, older), (⟨2⟩, oldest)] ∧
      (p.resolve ⟨1⟩ .success 30000 (some 10)).1 = .error (.expired ⟨1⟩) ∧
      (p.expire 30000 (some 10)).2.find? ⟨3⟩ = some young ∧
      (p.expire 15000 (some 10)).1 = [(⟨2⟩, oldest)] ∧
      ((p.expire 15000 (some 10)).1 ++ ((p.expire 15000 (some 10)).2.expire 30000 (some 10)).1).Perm
        [(⟨1⟩, older), (⟨2⟩, oldest)] := by
  intro target oldest older young p q
  have perm : q.rows.Perm p.rows := by decide
  have swept : (p.expire 30000 (some 10)).1 = [(⟨1⟩, older), (⟨2⟩, oldest)] :=
    List.mergeSort_of_pairwise (by decide)
  have first : (p.expire 15000 (some 10)).1 = [(⟨2⟩, oldest)] := List.mergeSort_of_pairwise (by decide)
  obtain ⟨takes, -, anyOrder, leaves, -, twice, -⟩ := sweep_agrees_with_answers p 30000 (some 10)
  refine ⟨perm, by decide, swept, (anyOrder q perm).1.trans swept, ?_, ?_, first,
    swept ▸ (twice 15000 (by decide)).2⟩
  · exact ((takes ⟨1⟩ older).mp (swept ▸ List.mem_cons_self)).2
  · exact (leaves ⟨3⟩ young).mpr ⟨by decide, by decide⟩

end Pending

/-! ### The boundary -/

/-- With a timeout in seconds an activation expires exactly when the whole timeout has passed, to the millisecond, with
    one exception: under a timeout of zero it has also expired during the second before it was asked for. Any other
    whose request lies ahead stays through every sweep, and no answer finds it too late. -/
theorem Activation.expired_iff_timeout_passed (a : Activation) (now : Moment) (t : UInt64) :
    (a.isExpired now (some t) = true ↔ 1000 * (t.toNat : Int) ≤ now - a.askedAt ∨
        (t = 0 ∧ now < a.askedAt ∧ a.askedAt < now + 1000)) ∧
      (now < a.askedAt → (t ≠ 0 ∨ now + 1000 ≤ a.askedAt) → a.isExpired now (some t) = false ∧
        ∀ (p : Pending) (id : CorrelationId), p.find? id = some a →
          (p.expire now (some t)).2.find? id = some a ∧ (id, a) ∉ (p.expire now (some t)).1 ∧
            ∀ answer, (p.resolve id answer now (some t)).1 ≠ .error (.expired id)) := by
  refine ⟨isExpired_some_iff, fun ahead apart => ?_⟩
  have fresh : a.isExpired now (some t) = false := by
    refine Bool.eq_false_iff.mpr fun late => ?_
    rcases isExpired_some_iff.mp late with passed | ⟨rfl, -, near⟩
    · unfold Moment at *
      omega
    · rcases apart with some | far
      · exact some rfl
      · exact absurd near (Int.not_lt.mpr far)
  refine ⟨fresh, fun p id found => ⟨Pending.find?_expire.mpr ⟨found, fresh⟩, fun taken => ?_, ?_⟩⟩
  · rw [(Pending.mem_expire.mp taken).2] at fresh
    cases fresh
  · intro answer refused
    obtain ⟨b, same, -, late⟩ := Pending.resolution_eq_expired_iff.mp refused
    cases found.symm.trans same
    rw [late] at fresh
    cases fresh

/-- The clock was put back by half a second, and the timeout is one second. -/
theorem Activation.expired_iff_timeout_passed_clock_put_back :
    let a : Activation := ⟨⟨1⟩, ⟨11⟩, ⟨.full, .audible, .notStreamable, .main, .regular⟩, 500⟩
    let p := Pending.empty.insert ⟨7⟩ a
    (0 : Moment) < a.askedAt ∧ p.find? ⟨7⟩ = some a ∧ a.isExpired 0 (some 1) = false ∧
      (p.expire 0 (some 1)).2.find? ⟨7⟩ = some a ∧
      (p.resolve ⟨7⟩ .success 0 (some 1)).1 ≠ .error (.expired ⟨7⟩) := by
  intro a p
  have ahead : (0 : Moment) < a.askedAt := by decide
  have found : p.find? ⟨7⟩ = some a := by decide
  obtain ⟨fresh, keeps⟩ := (expired_iff_timeout_passed a 0 1).2 ahead (Or.inl (by decide))
  obtain ⟨stays, -, answered⟩ := keeps p ⟨7⟩ found
  exact ⟨ahead, found, fresh, stays, answered .success⟩

/-- Under a timeout of zero it has expired half a second before it is asked for: a sweep takes it, and an answer finds
    it too late. -/
theorem Activation.expired_before_asked :
    let a : Activation := ⟨⟨1⟩, ⟨11⟩, ⟨.full, .audible, .notStreamable, .main, .regular⟩, 500⟩
    let p := Pending.empty.insert ⟨7⟩ a
    (0 : Moment) < a.askedAt ∧ ¬ 1000 * ((0 : UInt64).toNat : Int) ≤ 0 - a.askedAt ∧
      a.isExpired 0 (some 0) = true ∧ (p.expire 0 (some 0)).1 = [(⟨7⟩, a)] ∧
      (p.resolve ⟨7⟩ .success 0 (some 0)).1 = .error (.expired ⟨7⟩) := by
  intro a p
  exact ⟨by decide, by decide, by decide, List.mergeSort_of_pairwise (by decide), by decide⟩

end HeadUnit
