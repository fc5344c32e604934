import ModuleLoader.Proofs.CoherentDrivers
/-!
# The books of a driver

What a driver notes about its components stands on its own: it needs nothing from the records, and it stays
in order whatever the host does in between. A component that has not settled counts the components it
depends on that have not settled, and what it still waits for outside; it runs exactly when the count is
zero, and never twice.
-/

namespace ModuleLoader
set_option autoImplicit false

open DriverWait DriverWork

namespace Component

/-- Whether there is a component at a place that has not settled. -/
def isUnsettled (components : List Component) (index : Nat) : Bool :=
  (components[index]?).any fun component => !component.settled

theorem isUnsettled_iff {components : List Component} {index : Nat} :
    isUnsettled components index = true ↔
      ∃ component, components[index]? = some component ∧ component.settled = false := by
  unfold isUnsettled
  cases components[index]? with
  | none => simp
  | some component => simp

theorem isUnsettled_eq_false {components : List Component} {index : Nat} :
    isUnsettled components index = false ↔ SettledAt components index := by
  unfold isUnsettled SettledAt
  cases components[index]? with
  | none => simp
  | some component => simp

theorem isUnsettled_modify {f : Component → Component}
    (hsettled : ∀ component, (f component).settled = component.settled) (components : List Component)
    (index : Nat) : isUnsettled (components.modify index f) = isUnsettled components := by
  funext place
  unfold isUnsettled
  rw [List.getElem?_modify]
  cases components[place]? with
  | none => rfl
  | some component =>
    by_cases same : index = place <;> simp [same, hsettled]

/-- The component when one thing that it waits for has come. -/
def countOff (component : Component) : Component :=
  { component with waiting := component.waiting - 1 }

/-- Only the component that settles has not settled any more. -/
theorem isUnsettled_markSettled (components : List Component) (index place : Nat) :
    isUnsettled (markSettled components index) place =
      if place = index then false else isUnsettled components place := by
  unfold isUnsettled markSettled
  rw [List.getElem?_modify]
  by_cases same : index = place
  · subst same
    cases components[index]? <;> simp
  · rw [if_neg (Ne.symm same)]
    cases components[place]? <;> simp [same]

end Component

open Component

/-- How the components of a driver stand to each other: each depends on some that come before it, and is
released by each of them once. -/
structure Arranged (inside : Nat → List Nat) (components : List Component) : Prop where
  earlier : ∀ index, ∀ other ∈ inside index, other < index
  unique : ∀ index, (inside index).Nodup
  released : ∀ index (component : Component), components[index]? = some component →
    component.dependents.Nodup ∧ ∀ other, other ∈ component.dependents ↔ index ∈ inside other

/-- The books of a driver. `finished` counts the runs of each component that have ended, `owed` are the
components that have still to be released, once for each mention, and `falling` those about to fail. -/
structure DriverBooks (inside : Nat → List Nat) (components : List Component) (waits : List DriverWait)
    (finished : Nat → Nat) (owed falling : List Nat) : Prop where
  /-- A component counts what it depends on that has not settled, and what it waits for outside. -/
  counted : ∀ index (component : Component), components[index]? = some component →
    component.settled = false → index ∉ falling →
      (inside index).countP (isUnsettled components) + waits.countP (isOutside index) +
        owed.count index = component.waiting
  /-- A component that counts to zero runs, and no other one does or did. -/
  begun : ∀ index (component : Component), components[index]? = some component →
    component.settled = false → index ∉ falling →
      waits.countP (isRun index) = (if component.waiting = 0 then 1 else 0) ∧ finished index = 0
  idle : ∀ index, SettledAt components index ∨ index ∈ falling → waits.countP (isRun index) = 0
  once : ∀ index, waits.countP (isRun index) + finished index ≤ 1

namespace DriverBooks

variable {inside : Nat → List Nat} {components : List Component} {waits : List DriverWait}
  {finished : Nat → Nat} {owed falling : List Nat} {index : Nat} {component : Component}

/-- The books look only at how often each component waits for something outside, and runs. -/
theorem congr (h : DriverBooks inside components waits finished owed falling) {waits' : List DriverWait}
    (hout : ∀ index, waits'.countP (isOutside index) = waits.countP (isOutside index))
    (hrun : ∀ index, waits'.countP (isRun index) = waits.countP (isRun index)) :
    DriverBooks inside components waits' finished owed falling where
  counted index component hcomponent hopen hnot := by
    rw [hout]
    exact h.counted index component hcomponent hopen hnot
  begun index component hcomponent hopen hnot := by
    rw [hrun]
    exact h.begun index component hcomponent hopen hnot
  idle index hidle := by
    rw [hrun]
    exact h.idle index hidle
  once index := by
    rw [hrun]
    exact h.once index

theorem perm (h : DriverBooks inside components waits finished owed falling) {waits' : List DriverWait}
    (hperm : waits'.Perm waits) : DriverBooks inside components waits' finished owed falling :=
  h.congr (fun _ => hperm.countP_eq _) fun _ => hperm.countP_eq _

/-- A component that has settled needs not be released. -/
theorem excuse (h : DriverBooks inside components waits finished (index :: owed) falling)
    (hsettled : SettledAt components index) : DriverBooks inside components waits finished owed falling where
  counted other component hcomponent hopen hnot := by
    have hne : index ≠ other := by
      rintro rfl
      rw [hsettled component hcomponent] at hopen
      cases hopen
    rw [← h.counted other component hcomponent hopen hnot, List.count_cons_of_ne hne]
  begun := h.begun
  idle := h.idle
  once := h.once

/-- A component that has settled can fall no more. -/
theorem skip (h : DriverBooks inside components waits finished owed (index :: falling))
    (hsettled : SettledAt components index) : DriverBooks inside components waits finished owed falling := by
  have hnot {other : Nat} {component : Component} (hcomponent : components[other]? = some component)
      (hopen : component.settled = false) (hnot : other ∉ falling) : other ∉ index :: falling := by
    rw [List.mem_cons, not_or]
    refine ⟨?_, hnot⟩
    rintro rfl
    rw [hsettled component hcomponent] at hopen
    cases hopen
  exact ⟨fun other component hcomponent hopen hout =>
      h.counted other component hcomponent hopen (hnot hcomponent hopen hout),
    fun other component hcomponent hopen hout =>
      h.begun other component hcomponent hopen (hnot hcomponent hopen hout),
    fun other hidle => h.idle other (hidle.imp_right (List.mem_cons_of_mem _)), h.once⟩

/-! ### Events -/

variable {completion : Completion} {run : ComponentRun}

/-- What a component waits for outside is given: it has to be released. -/
theorem given (h : DriverBooks inside components (.outside index completion :: waits) finished owed falling) :
    DriverBooks inside components waits finished (index :: owed) falling where
  counted other component hcomponent hopen hnot := by
    have hcounted := h.counted other component hcomponent hopen hnot
    rw [countP_isOutside_cons] at hcounted
    rw [List.count_cons]
    simp only [beq_iff_eq]
    omega
  begun other component hcomponent hopen hnot := by
    rw [← countP_isRun_outside_cons]
    exact h.begun other component hcomponent hopen hnot
  idle other hidle := by
    rw [← countP_isRun_outside_cons]
    exact h.idle other hidle
  once other := by
    rw [← countP_isRun_outside_cons]
    exact h.once other

/-- A component that is owed a release, or depends on one that has not settled, or waits for something
outside, counts it. -/
theorem pos_waiting (h : DriverBooks inside components waits finished owed falling)
    (hcomponent : components[index]? = some component) (hopen : component.settled = false)
    (hnot : index ∉ falling) (hsome : index ∈ owed ∨ (∃ completion, .outside index completion ∈ waits) ∨
      ∃ other ∈ inside index, isUnsettled components other = true) : 1 ≤ component.waiting := by
  have hcounted := h.counted index component hcomponent hopen hnot
  rcases hsome with howed | ⟨completion, hmem⟩ | ⟨other, hother, hunsettled⟩
  · have hpos := List.count_pos_iff.2 howed
    omega
  · have hpos : 0 < waits.countP (isOutside index) :=
      List.countP_pos_iff.2 ⟨_, hmem, decide_eq_true rfl⟩
    omega
  · have hpos : 0 < (inside index).countP (isUnsettled components) :=
      List.countP_pos_iff.2 ⟨other, hother, hunsettled⟩
    omega

/-- A component that counts something does not run. -/
theorem not_running (h : DriverBooks inside components waits finished owed falling)
    (hwaiting : ∀ component : Component, components[index]? = some component →
      component.settled = false → index ∉ falling → 1 ≤ component.waiting) :
    waits.countP (isRun index) = 0 := by
  by_cases hidle : SettledAt components index ∨ index ∈ falling
  · exact h.idle index hidle
  · rw [not_or, ← isUnsettled_eq_false, Bool.not_eq_false, isUnsettled_iff] at hidle
    obtain ⟨⟨component, hcomponent, hopen⟩, hnot⟩ := hidle
    have hpos := hwaiting component hcomponent hopen hnot
    rw [(h.begun index component hcomponent hopen hnot).1, if_neg (by omega)]

/-- What a component waits for outside failed: the component is about to fail, and does not run. -/
theorem lost (h : DriverBooks inside components (.outside index completion :: waits) finished owed []) :
    DriverBooks inside components waits finished owed [index] where
  counted other component hcomponent hopen hnot := by
    have hne : index ≠ other := fun heq => hnot (heq ▸ List.mem_singleton_self index)
    have hcounted := h.counted other component hcomponent hopen List.not_mem_nil
    rwa [countP_isOutside_cons, if_neg hne] at hcounted
  begun other component hcomponent hopen _ := by
    rw [← countP_isRun_outside_cons]
    exact h.begun other component hcomponent hopen List.not_mem_nil
  idle other hidle := by
    rw [← countP_isRun_outside_cons]
    refine h.not_running fun component hcomponent hopen hnot => ?_
    rcases hidle with hsettled | hmem
    · rw [hsettled component hcomponent] at hopen
      cases hopen
    · obtain rfl := List.mem_singleton.1 hmem
      exact h.pos_waiting hcomponent hopen hnot (.inr (.inl ⟨completion, List.mem_cons_self⟩))
  once other := by
    rw [← countP_isRun_outside_cons]
    exact h.once other

/-- A component that runs has not settled, and counts nothing. -/
theorem running (h : DriverBooks inside components waits finished owed [])
    (hmem : .run index run ∈ waits) : ∃ component, components[index]? = some component ∧
      component.settled = false ∧ component.waiting = 0 := by
  have hpos : 0 < waits.countP (isRun index) := List.countP_pos_iff.2 ⟨_, hmem, decide_eq_true rfl⟩
  have hunsettled : isUnsettled components index = true := by
    by_contra hsettled
    rw [Bool.not_eq_true, isUnsettled_eq_false] at hsettled
    rw [h.idle index (.inl hsettled)] at hpos
    cases hpos
  obtain ⟨component, hcomponent, hopen⟩ := isUnsettled_iff.1 hunsettled
  refine ⟨component, hcomponent, hopen, ?_⟩
  by_contra hwaiting
  rw [(h.begun index component hcomponent hopen List.not_mem_nil).1, if_neg hwaiting] at hpos
  cases hpos

/-- The run of a component ends: the component is about to settle, and has run once. -/
theorem ended (h : DriverBooks inside components (.run index run :: waits) finished owed []) :
    DriverBooks inside components waits
      (fun place => finished place + if index = place then 1 else 0) owed [index] where
  counted other component hcomponent hopen _ := by
    rw [← countP_isOutside_run_cons]
    exact h.counted other component hcomponent hopen List.not_mem_nil
  begun other component hcomponent hopen hnot := by
    have hne : index ≠ other := fun heq => hnot (heq ▸ List.mem_singleton_self index)
    have hbegun := h.begun other component hcomponent hopen List.not_mem_nil
    rw [if_neg hne]
    rwa [countP_isRun_cons, if_neg hne] at hbegun
  idle other hidle := by
    rcases hidle with hsettled | hmem
    · have hidle := h.idle other (.inl hsettled)
      rw [countP_isRun_cons] at hidle
      omega
    · obtain rfl := List.mem_singleton.1 hmem
      have honce := h.once other
      rw [countP_isRun_cons, if_pos rfl] at honce
      omega
  once other := by
    have honce := h.once other
    rw [countP_isRun_cons] at honce
    omega

/-! ### Releases -/

theorem countP_isOutside_begin {begins : Prop} [Decidable begins] (place : Nat) :
    (if begins then .run index run :: waits else waits).countP (isOutside place) =
      waits.countP (isOutside place) := by
  split
  · exact countP_isOutside_run_cons
  · rfl

/-- A run that begins is counted for its component. -/
theorem countP_isRun_begin {begins : Prop} [Decidable begins] (place : Nat) :
    (if begins then .run index run :: waits else waits).countP (isRun place) =
      waits.countP (isRun place) + if begins ∧ index = place then 1 else 0 := by
  by_cases hbegins : begins
  · simp only [hbegins, true_and]
    exact countP_isRun_cons
  · simp [hbegins]

/-- A release is counted, and whoever counts to zero runs. -/
theorem release (h : DriverBooks inside components waits finished (index :: owed) [])
    (hcomponent : components[index]? = some component) (hopen : component.settled = false) :
    DriverBooks inside (components.modify index countOff)
      (if component.waiting = 1 then .run index ⟨none, component.members⟩ :: waits else waits)
      finished owed [] := by
  have hwaiting := h.pos_waiting hcomponent hopen List.not_mem_nil (.inl List.mem_cons_self)
  have hbegun := h.begun index component hcomponent hopen List.not_mem_nil
  rw [if_neg (by omega)] at hbegun
  have hunsettled := isUnsettled_modify (f := countOff) (fun _ => rfl) components index
  have hback {place : Nat} {found : Component} (hfound : (components.modify index countOff)[place]? = some found) :
      place = index ∧ found = component.countOff ∨ place ≠ index ∧ components[place]? = some found := by
    obtain ⟨old, hold, ⟨rfl, rfl⟩ | ⟨hne, rfl⟩⟩ := getElem?_modify_cases hfound
    · obtain rfl := Option.some.inj (hold.symm.trans hcomponent)
      exact .inl ⟨rfl, rfl⟩
    · exact .inr ⟨hne, hold⟩
  refine ⟨fun place found hfound hstill _ => ?_, fun place found hfound hstill _ => ?_, fun place hidle => ?_,
    fun place => ?_⟩
  · rw [hunsettled, countP_isOutside_begin]
    rcases hback hfound with ⟨rfl, rfl⟩ | ⟨hne, hold⟩
    · have hcounted := h.counted place component hcomponent hopen List.not_mem_nil
      rw [List.count_cons_self] at hcounted
      change _ = component.waiting - 1
      omega
    · rw [← h.counted place found hold hstill List.not_mem_nil, List.count_cons_of_ne (Ne.symm hne)]
  · rw [countP_isRun_begin]
    rcases hback hfound with ⟨rfl, rfl⟩ | ⟨hne, hold⟩
    · refine ⟨?_, hbegun.2⟩
      rw [hbegun.1, Nat.zero_add]
      refine if_congr ?_ rfl rfl
      change component.waiting = 1 ∧ place = place ↔ component.waiting - 1 = 0
      omega
    · rw [if_neg fun heq => hne heq.2.symm]
      exact h.begun place found hold hstill List.not_mem_nil
  · rw [countP_isRun_begin]
    have hsettled := hidle.resolve_right List.not_mem_nil
    rw [← isUnsettled_eq_false, hunsettled, isUnsettled_eq_false] at hsettled
    rw [h.idle place (.inl hsettled), if_neg]
    rintro ⟨-, rfl⟩
    rw [hsettled component hcomponent] at hopen
    cases hopen
  · rw [countP_isRun_begin]
    by_cases hsame : component.waiting = 1 ∧ index = place
    · obtain ⟨-, rfl⟩ := hsame
      rw [hbegun.1, hbegun.2]
      split <;> omega
    · rw [if_neg hsame]
      exact h.once place

/-! ### Settling -/

/-- Whoever depends on a component that settles counts one less that has not settled. -/
theorem countP_markSettled (harranged : Arranged inside components)
    (hcomponent : components[index]? = some component) (hopen : component.settled = false) (place : Nat) :
    (inside place).countP (isUnsettled components) =
      (inside place).countP (isUnsettled (markSettled components index)) +
        if place ∈ component.dependents then 1 else 0 := by
  have hsettled : isUnsettled (markSettled components index) index = false := by
    rw [isUnsettled_markSettled, if_pos rfl]
  rw [countP_flip (harranged.unique place) (isUnsettled_iff.2 ⟨component, hcomponent, hopen⟩) hsettled
    fun other hne => by rw [isUnsettled_markSettled, if_neg hne]]
  simp only [(harranged.released index component hcomponent).2]

/-- What has not settled after a component did. -/
theorem of_markSettled {place : Nat} {found : Component}
    (hfound : (markSettled components index)[place]? = some found) (hopen : found.settled = false) :
    place ≠ index ∧ components[place]? = some found := by
  obtain ⟨old, hold, ⟨-, rfl⟩ | ⟨hne, rfl⟩⟩ := getElem?_modify_cases hfound
  · cases hopen
  · exact ⟨hne, hold⟩

theorem settledAt_of_markSettled {place : Nat} (hne : place ≠ index)
    (hsettled : SettledAt (markSettled components index) place) : SettledAt components place := by
  rwa [← isUnsettled_eq_false, isUnsettled_markSettled, if_neg hne, isUnsettled_eq_false] at hsettled

/-- A component that has run succeeds: those that depend on it have to be released. -/
theorem succeed (h : DriverBooks inside components waits finished [] [index])
    (harranged : Arranged inside components) (hcomponent : components[index]? = some component)
    (hopen : component.settled = false) :
    DriverBooks inside (markSettled components index) waits finished component.dependents [] where
  counted place found hfound hstill _ := by
    obtain ⟨hne, hold⟩ := of_markSettled hfound hstill
    have hcounted := h.counted place found hold hstill (List.mem_singleton.not.2 hne)
    rw [countP_markSettled harranged hcomponent hopen, List.count_nil] at hcounted
    rw [(harranged.released index component hcomponent).1.count]
    omega
  begun place found hfound hstill _ := by
    obtain ⟨hne, hold⟩ := of_markSettled hfound hstill
    exact h.begun place found hold hstill (List.mem_singleton.not.2 hne)
  idle place hidle := by
    by_cases hsame : place = index
    · exact h.idle place (.inr (List.mem_singleton.2 hsame))
    · exact h.idle place (.inl (settledAt_of_markSettled hsame (hidle.resolve_right List.not_mem_nil)))
  once := h.once

/-- A component fails: those that depend on it are about to fail. -/
theorem fall (h : DriverBooks inside components waits finished owed (index :: falling))
    (harranged : Arranged inside components) (hcomponent : components[index]? = some component)
    (hopen : component.settled = false) :
    DriverBooks inside (markSettled components index) waits finished owed
      (component.dependents.reverse ++ falling) := by
  have hout {place : Nat} (hne : place ≠ index) (hnot : place ∉ component.dependents.reverse ++ falling) :
      place ∉ component.dependents ∧ place ∉ index :: falling := by
    rw [List.mem_append, List.mem_reverse, not_or] at hnot
    exact ⟨hnot.1, List.mem_cons.not.2 (not_or.2 ⟨hne, hnot.2⟩)⟩
  refine ⟨fun place found hfound hstill hnot => ?_, fun place found hfound hstill hnot => ?_,
    fun place hidle => ?_, h.once⟩
  · obtain ⟨hne, hold⟩ := of_markSettled hfound hstill
    obtain ⟨hfree, hnot⟩ := hout hne hnot
    have hcounted := h.counted place found hold hstill hnot
    rwa [countP_markSettled harranged hcomponent hopen, if_neg hfree] at hcounted
  · obtain ⟨hne, hold⟩ := of_markSettled hfound hstill
    exact h.begun place found hold hstill (hout hne hnot).2
  · by_cases hsame : place = index
    · exact h.idle place (.inr (hsame ▸ List.mem_cons_self))
    · rcases hidle with hsettled | hmem
      · exact h.idle place (.inl (settledAt_of_markSettled hsame hsettled))
      · rcases List.mem_append.1 hmem with hdependent | hfalling
        · -- Whoever depends on the component counts it still, and so does not run.
          rw [List.mem_reverse, (harranged.released index component hcomponent).2] at hdependent
          exact h.not_running fun found hfound hstill hnot => h.pos_waiting hfound hstill hnot
            (.inr (.inr ⟨index, hdependent, isUnsettled_iff.2 ⟨component, hcomponent, hopen⟩⟩))
        · exact h.idle place (.inr (List.mem_cons_of_mem _ hfalling))

/-! ### Progress -/

/-- Whoever has not settled depends, in some steps, on one that runs or waits for something outside. -/
theorem progress (h : DriverBooks inside components waits finished [] [])
    (harranged : Arranged inside components) : ∀ index, isUnsettled components index = true →
      ∃ other, Relation.ReflTransGen (fun index other => other ∈ inside index) index other ∧
        isUnsettled components other = true ∧
          ((∃ run, .run other run ∈ waits) ∨ ∃ completion, .outside other completion ∈ waits) := by
  -- By induction on the place.
  intro index
  induction index using Nat.strong_induction_on with
  | _ index ih =>
    intro hunsettled
    obtain ⟨component, hcomponent, hopen⟩ := isUnsettled_iff.1 hunsettled
    have hcounted := h.counted index component hcomponent hopen List.not_mem_nil
    obtain ⟨hbegun, -⟩ := h.begun index component hcomponent hopen List.not_mem_nil
    rw [List.count_nil, Nat.add_zero] at hcounted
    by_cases hinside : ∃ earlier ∈ inside index, isUnsettled components earlier = true
    · obtain ⟨earlier, hearlier, hstill⟩ := hinside
      obtain ⟨other, hreach, hother⟩ := ih earlier (harranged.earlier index earlier hearlier) hstill
      exact ⟨other, .head hearlier hreach, hother⟩
    · have hnone : (inside index).countP (isUnsettled components) = 0 :=
        List.countP_eq_zero.2 fun earlier hearlier hstill => hinside ⟨earlier, hearlier, hstill⟩
      refine ⟨index, .refl, hunsettled, ?_⟩
      by_cases hwaiting : component.waiting = 0
      · rw [if_pos hwaiting] at hbegun
        refine .inl ?_
        by_contra hidle
        rw [not_exists] at hidle
        rw [countP_isRun_eq_zero.2 hidle] at hbegun
        cases hbegun
      · have hpos : 0 < waits.countP (isOutside index) := by omega
        obtain ⟨wait, hmem, hout⟩ := List.countP_pos_iff.1 hpos
        cases wait with
        | run => cases hout
        | outside place completion =>
          obtain rfl := of_decide_eq_true hout
          exact .inr ⟨completion, hmem⟩

end DriverBooks

end ModuleLoader
