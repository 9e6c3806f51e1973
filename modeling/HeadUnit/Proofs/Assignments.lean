import HeadUnit.Proofs.Arbitration

/-! The assignments that a request comes to. They name the asker first and no application twice. They do not
    depend on the order of the roster and may be carried out in any order, for each is decided from the roster
    as it was; once they are carried out, the same request has nothing more to take. -/

namespace HeadUnit.Roster
variable {apps apps' : Roster} {target : AppId} {asker : AppRecord} {c : Capabilities} {asked : Status}

/-! ### What a request decides -/

/-- The assignments to the applications that lose something. -/
def demotions (target : AppId) (asker : Capabilities) (asked : Status) (apps : Roster) : List Assignment :=
  (apps.filter (·.app ≠ target)).filterMap fun r =>
    (Status.demotion? asker asked r.capabilities r.regular).map fun s => (r.app, s)

theorem assignments_eq (known : apps.record? target = some asker) :
    apps.assignments target asked = .ok ((target, asked) :: apps.demotions target asker.capabilities asked) := by
  simp only [assignments, known]
  rfl

theorem mem_demotions {a : Assignment} (h : a ∈ apps.demotions target c asked) : a.1 ≠ target := by
  obtain ⟨r, hr, ha⟩ := List.mem_filterMap.mp h
  obtain ⟨s, -, rfl⟩ := Option.map_eq_some_iff.mp ha
  simpa using (List.mem_filter.mp hr).2

theorem Distinct.nodup_demotions (h : apps.Distinct) : ((apps.demotions target c asked).map Prod.fst).Nodup := by
  have others : (apps.filter (·.app ≠ target)).Pairwise fun r s => r.app ≠ s.app :=
    (List.pairwise_map.mp h).filter _
  refine List.pairwise_map.mpr (others.filterMap _ ?_)
  intro r s ne a ha b hb
  obtain ⟨_, -, rfl⟩ := Option.map_eq_some_iff.mp ha
  obtain ⟨_, -, rfl⟩ := Option.map_eq_some_iff.mp hb
  exact ne

theorem Distinct.nodup_assignments (h : apps.Distinct) :
    (((target, asked) :: apps.demotions target c asked).map Prod.fst).Nodup := by
  refine List.nodup_cons.mpr ⟨fun mem => ?_, h.nodup_demotions⟩
  obtain ⟨a, ha, same⟩ := List.mem_map.mp mem
  exact mem_demotions ha same

/-! ### In any order -/

theorem Distinct.perm (h : apps.Distinct) (perm : apps'.Perm apps) : apps'.Distinct :=
  (perm.map AppRecord.app).nodup_iff.mpr h

theorem demotions_perm (perm : apps'.Perm apps) :
    (apps'.demotions target c asked).Perm (apps.demotions target c asked) :=
  (perm.filter _).filterMap _

theorem modify_withRegular_comm {a b : Assignment} (ne : a.1 ≠ b.1) (apps : Roster) :
    (apps.modify a.1 (·.withRegular a.2)).modify b.1 (·.withRegular b.2) =
      (apps.modify b.1 (·.withRegular b.2)).modify a.1 (·.withRegular a.2) := by
  have keeps : ∀ (s : Status) (r : AppRecord), (r.withRegular s).app = r.app := fun _ _ => rfl
  simp only [modify, List.map_map]
  refine List.map_congr_left fun r _ => ?_
  by_cases ha : r.app = a.1
  · simp [ha, keeps, ne]
  · by_cases hb : r.app = b.1 <;> simp [ha, hb, keeps, ne.symm]

/-- Assignments to different applications may be carried out in any order. -/
theorem assign_perm {as as' : List Assignment} (perm : as'.Perm as) (once : (as.map Prod.fst).Nodup) :
    apps.assign as' = apps.assign as := by
  refine perm.foldl_eq' (fun a ha b hb apps => ?_) apps
  by_cases same : a.1 = b.1
  · rw [List.inj_on_of_nodup_map once (perm.subset ha) (perm.subset hb) same]
  · exact modify_withRegular_comm same apps

/-! ### Once more -/

theorem demotions_contend : demotions asker.app asker.capabilities asked
    (apps.map (AppRecord.contend asker asked)) = [] := by
  refine List.filterMap_eq_nil_iff.mpr fun r hr => ?_
  obtain ⟨mem, ne⟩ := List.mem_filter.mp hr
  obtain ⟨s, -, rfl⟩ := List.mem_map.mp mem
  have other : s.app ≠ asker.app := by simpa using ne
  rw [AppRecord.demotion?_contend other]
  rfl

/-- In any roster with distinct numbers, whatever the statuses held and the one asked for: the request decides
    first that its application gets exactly what it asks for, and names no application twice. Any order of the
    roster gives the same assignments, any order of the assignments the same roster, and there the request
    decides nothing else any more. -/
theorem assignments_order_free (distinct : apps.Distinct) (registered : asker ∈ apps) (asked : Status) :
    ∃ others : List Assignment,
      apps.assignments asker.app asked = .ok ((asker.app, asked) :: others) ∧
      (((asker.app, asked) :: others).map Prod.fst).Nodup ∧
      (∀ apps' : Roster, apps'.Perm apps → ∃ decided, apps'.assignments asker.app asked = .ok decided ∧
        decided.Perm ((asker.app, asked) :: others)) ∧
      (∀ as : List Assignment, as.Perm ((asker.app, asked) :: others) →
        apps.assign as = apps.assign ((asker.app, asked) :: others) ∧
        assignments asker.app asked (apps.assign as) = .ok [(asker.app, asked)]) := by
  have known := distinct.record?_eq_some registered
  have decided : apps.assignments asker.app asked =
      .ok ((asker.app, asked) :: apps.demotions asker.app asker.capabilities asked) := assignments_eq known
  refine ⟨apps.demotions asker.app asker.capabilities asked, decided, distinct.nodup_assignments, ?_, ?_⟩
  · intro apps' perm
    have known' := (distinct.perm perm).record?_eq_some (perm.symm.subset registered)
    exact ⟨_, assignments_eq known', (demotions_perm perm).cons _⟩
  · intro as perm
    have same : apps.assign as =
        apps.assign ((asker.app, asked) :: apps.demotions asker.app asker.capabilities asked) :=
      assign_perm perm distinct.nodup_assignments
    have after : apps.assign ((asker.app, asked) :: apps.demotions asker.app asker.capabilities asked) =
        apps.map (AppRecord.contend asker asked) := by
      rw [← arbitrate_eq_map distinct known asked, arbitrate, decided]
    have known' : record? asker.app (apps.map (AppRecord.contend asker asked)) =
        some (AppRecord.contend asker asked asker) := by
      rw [record?_map (fun _ => AppRecord.contend_app), known]
      rfl
    refine ⟨same, ?_⟩
    rw [same, after, assignments_eq known', AppRecord.contend_capabilities, demotions_contend]

/-- Navigation asks for the display. The player loses it and keeps its audio, the other navigation has to go, and
    a level that nobody knows is left alone. -/
theorem assignments_order_free_three :
    let navi : AppRecord := { profile := ⟨⟨1⟩, ⟨11⟩, { navigation := true }⟩ }
    let guide : AppRecord :=
      { profile := ⟨⟨2⟩, ⟨12⟩, { media := true, navigation := true }⟩
        regular := ⟨.limited, .audible, .streamable, .menu, .regular⟩ }
    let odd : AppRecord :=
      { profile := ⟨⟨3⟩, ⟨13⟩, { navigation := true }⟩
        regular := ⟨.invalid, .audible, .invalid, .main, .regular⟩ }
    let player : AppRecord :=
      { profile := ⟨⟨4⟩, ⟨14⟩, { media := true }⟩
        regular := ⟨.full, .attenuated, .notStreamable, .alert, .regular⟩ }
    let apps : Roster := [guide, player, odd, navi]
    let asked : Status := ⟨.full, .audible, .streamable, .main, .current⟩
    let back : Assignment := (guide.app, ⟨.background, .notAudible, .notStreamable, .menu, .regular⟩)
    let off : Assignment := (player.app, ⟨.limited, .audible, .notStreamable, .alert, .regular⟩)
    apps.Distinct ∧ navi ∈ apps ∧
      apps.assignments navi.app asked = .ok [(navi.app, asked), back, off] ∧
      (∃ decided, assignments navi.app asked apps.reverse = .ok decided ∧
        decided.Perm [(navi.app, asked), back, off]) ∧
      apps.assign [off, (navi.app, asked), back] = apps.assign [(navi.app, asked), back, off] ∧
      assignments navi.app asked (apps.assign [off, (navi.app, asked), back]) = .ok [(navi.app, asked)] := by
  intro navi guide odd player apps asked back off
  have distinct : apps.Distinct := by decide
  have registered : navi ∈ apps := by simp [apps]
  obtain ⟨others, decided, -, permuted, order⟩ := assignments_order_free distinct registered asked
  have now : apps.assignments navi.app asked = .ok [(navi.app, asked), back, off] := by decide
  obtain rfl : others = [back, off] := by
    rw [now] at decided
    cases decided
    rfl
  obtain ⟨same, again⟩ := order [off, (navi.app, asked), back] (by decide)
  exact ⟨distinct, registered, decided, permuted _ (List.reverse_perm apps), same, again⟩

end HeadUnit.Roster
