import ModuleLoader.Proofs.Works
/-!
How the balance of a driver changes: a run is taken out and put back, a wait settles, a component is
released, and a component settles with success or with a failure.
-/

namespace ModuleLoader
set_option autoImplicit false

variable {host : Host}

namespace Component

theorem isOver_iff {component : Component} : component.isOver host = true ↔
    component.settled = true ∧ ∀ ref ∈ component.members, (host.record ref).phase = .ready := by
  unfold isOver
  rw [Bool.and_eq_true, List.all_eq_true]
  exact and_congr_right fun _ => forall₂_congr fun _ _ => decide_eq_true_iff

/-- Components of which one was changed. -/
theorem getElem?_modify_cases {components : List Component} {index place : Nat} {f : Component → Component}
    {component : Component} (h : (components.modify index f)[place]? = some component) :
    ∃ old, components[place]? = some old ∧
      (place = index ∧ component = f old ∨ place ≠ index ∧ component = old) := by
  rw [List.getElem?_modify] at h
  obtain ⟨old, hold, rfl⟩ := Option.map_eq_some_iff.1 h
  refine ⟨old, hold, ?_⟩
  by_cases hsame : index = place
  · exact .inl ⟨hsame.symm, if_pos hsame⟩
  · exact .inr ⟨Ne.symm hsame, if_neg hsame⟩

theorem getElem?_modify_of {components : List Component} {index : Nat} {f : Component → Component}
    {place : Nat} {component : Component} (h : components[place]? = some component) :
    (components.modify index f)[place]? = some (if index = place then f component else component) := by
  rw [List.getElem?_modify, h]
  rfl

/-- Every component is there with the members that it had. -/
def KeepsMembers (components others : List Component) : Prop :=
  ∀ (place : Nat) (old : Component), components[place]? = some old →
    ∃ found : Component, others[place]? = some found ∧ found.members = old.members

theorem KeepsMembers.modify {components : List Component} {index : Nat} {f : Component → Component}
    (h : ∀ component, (f component).members = component.members) :
    KeepsMembers components (components.modify index f) := by
  refine fun place old hold => ⟨_, getElem?_modify_of hold, ?_⟩
  split
  · exact h old
  · rfl

/-- One release is counted for a component. -/
def countDown (components : List Component) (index : Nat) : List Component :=
  components.modify index fun component => { component with waiting := component.waiting - 1 }

theorem countDown_back {components : List Component} {index place : Nat} {found : Component}
    (h : (countDown components index)[place]? = some found) :
    ∃ old : Component, components[place]? = some old ∧ found.members = old.members ∧
      found.settled = old.settled ∧ found.verdict = old.verdict ∧
        found.waiting = if place = index then old.waiting - 1 else old.waiting := by
  obtain ⟨old, hold, ⟨rfl, rfl⟩ | ⟨hne, rfl⟩⟩ := getElem?_modify_cases h
  · exact ⟨old, hold, rfl, rfl, rfl, (if_pos rfl).symm⟩
  · exact ⟨found, hold, rfl, rfl, rfl, (if_neg hne).symm⟩

theorem isOpen_countDown (components : List Component) (index : Nat) :
    isOpen host (countDown components index) = isOpen host components := by
  funext place
  unfold isOpen countDown
  rw [List.getElem?_modify]
  cases components[place]? with
  | none => rfl
  | some found =>
    change (!isOver host (if index = place then _ else _)) = _
    split <;> rfl

theorem countDown_keeps (components : List Component) (index : Nat) :
    KeepsMembers components (countDown components index) :=
  .modify fun _ => rfl

theorem markSettled_keeps (components : List Component) (index : Nat) :
    KeepsMembers components (DriverWork.markSettled components index) :=
  .modify fun _ => rfl

/-- A component that is not settled is not the one that was marked. -/
theorem unsettled_of_markSettled {components : List Component} {index place : Nat} {found : Component}
    (h : (DriverWork.markSettled components index)[place]? = some found) (hopen : found.settled = false) :
    place ≠ index ∧ components[place]? = some found := by
  obtain ⟨old, hold, ⟨-, rfl⟩ | ⟨hne, rfl⟩⟩ := getElem?_modify_cases h
  · cases hopen
  · exact ⟨hne, hold⟩

end Component

/-- In a list without repetitions, whoever changes is counted once. -/
theorem countP_flip {values : List Nat} (hnodup : values.Nodup) {before after : Nat → Bool} {index : Nat}
    (hbefore : before index = true) (hafter : after index = false)
    (hothers : ∀ other, other ≠ index → after other = before other) :
    values.countP before = values.countP after + if index ∈ values then 1 else 0 := by
  induction values with
  | nil => rfl
  | cons first rest ih =>
    obtain ⟨hfirst, hrest⟩ := List.nodup_cons.1 hnodup
    rw [List.countP_cons, List.countP_cons, ih hrest]
    by_cases hsame : first = index
    · subst hsame
      rw [hbefore, hafter, if_neg hfirst, if_pos List.mem_cons_self]
      rfl
    · rw [hothers first hsame]
      have hmem : index ∈ first :: rest ↔ index ∈ rest :=
        List.mem_cons.trans (or_iff_right fun heq => hsame heq.symm)
      simp only [hmem]
      omega

namespace DriverWait

variable {waits : List DriverWait} {index place : Nat} {run found : ComponentRun} {completion : Completion}

theorem outside_mem_run_cons :
    .outside index completion ∈ DriverWait.run place run :: waits ↔ .outside index completion ∈ waits :=
  List.mem_cons.trans (or_iff_right fun heq => nomatch heq)

theorem run_mem_outside_cons :
    .run index run ∈ DriverWait.outside place completion :: waits ↔ .run index run ∈ waits :=
  List.mem_cons.trans (or_iff_right fun heq => nomatch heq)

theorem countP_isOutside_run_cons :
    (DriverWait.run place run :: waits).countP (isOutside index) = waits.countP (isOutside index) :=
  List.countP_cons_of_neg fun heq => nomatch heq

theorem countP_isRun_outside_cons :
    (DriverWait.outside place completion :: waits).countP (isRun index) = waits.countP (isRun index) :=
  List.countP_cons_of_neg fun heq => nomatch heq

theorem countP_isRun_cons : (DriverWait.run place run :: waits).countP (isRun index) =
    waits.countP (isRun index) + if place = index then 1 else 0 := by
  rw [List.countP_cons]
  refine congrArg (waits.countP (isRun index) + ·) (if_congr ?_ rfl rfl)
  exact decide_eq_true_iff

theorem countP_isOutside_cons : (DriverWait.outside place completion :: waits).countP (isOutside index) =
    waits.countP (isOutside index) + if place = index then 1 else 0 := by
  rw [List.countP_cons]
  refine congrArg (waits.countP (isOutside index) + ·) (if_congr ?_ rfl rfl)
  exact decide_eq_true_iff

/-- Whoever runs is counted. -/
theorem countP_isRun_eq_zero : waits.countP (isRun index) = 0 ↔ ∀ run, .run index run ∉ waits := by
  rw [List.countP_eq_zero]
  constructor
  · exact fun h run hmem => h _ hmem (decide_eq_true rfl)
  · intro h wait hmem hrun
    cases wait with
    | outside place completion => cases hrun
    | run place run =>
      obtain rfl := of_decide_eq_true hrun
      exact h run hmem

end DriverWait

open DriverWait

namespace Balanced

variable {inside : Nat → List Nat} {components : List Component} {waits : List DriverWait}
  {busy : Option Nat} {owed : List Nat} {index : Nat}

/-- The order of what a driver waits for does not matter. -/
theorem perm (h : Balanced host inside components waits busy owed) {waits' : List DriverWait}
    (hperm : waits.Perm waits') : Balanced host inside components waits' busy owed where
  counted index component hcomponent hsettled := by
    rw [← hperm.countP_eq]
    exact h.counted index component hcomponent hsettled
  given index component hcomponent hsettled ref href needed hneeded := by
    simp only [← hperm.mem_iff]
    exact h.given index component hcomponent hsettled ref href needed hneeded
  idle index component hcomponent hsettled hbusy hrun :=
    h.idle index component hcomponent hsettled hbusy fun run hmem => hrun run (hperm.mem_iff.1 hmem)
  runs index run hmem := h.runs index run (hperm.mem_iff.2 hmem)
  once index := by
    rw [← hperm.countP_eq]
    exact h.once index
  poised index component hcomponent hsettled hwaiting :=
    (h.poised index component hcomponent hsettled hwaiting).imp_right
      fun ⟨found, hmem⟩ => ⟨found, hperm.mem_iff.1 hmem⟩
  outside index completion hmem := h.outside index completion (hperm.mem_iff.2 hmem)
  announced := h.announced

/-- A component that has settled needs not be released. -/
theorem excuse (h : Balanced host inside components waits busy (index :: owed))
    (hsettled : ∀ component : Component, components[index]? = some component → component.settled = true) :
    Balanced host inside components waits busy owed where
  counted other component hcomponent hunsettled := by
    have hne : index ≠ other := by
      rintro rfl
      rw [hsettled component hcomponent] at hunsettled
      cases hunsettled
    rw [← h.counted other component hcomponent hunsettled, List.count_cons_of_ne hne]
  given := h.given
  idle := h.idle
  runs := h.runs
  once := h.once
  poised := h.poised
  outside := h.outside
  announced := h.announced

/-- A component that has settled is busy no more. -/
theorem free (h : Balanced host inside components waits busy owed)
    (hsettled : ∀ index, busy = some index → ∀ component : Component,
      components[index]? = some component → component.settled = true) :
    Balanced host inside components waits none owed where
  counted := h.counted
  given := h.given
  idle index component hcomponent hunsettled _ hrun := by
    refine h.idle index component hcomponent hunsettled (fun hbusy => ?_) hrun
    rw [hsettled index hbusy component hcomponent] at hunsettled
    cases hunsettled
  runs index run hmem := ⟨(fun heq => nomatch heq), (h.runs index run hmem).2⟩
  once := h.once
  poised index component hcomponent hunsettled hwaiting := by
    refine .inr ((h.poised index component hcomponent hunsettled hwaiting).resolve_left fun hbusy => ?_)
    rw [hsettled index hbusy component hcomponent] at hunsettled
    cases hunsettled
  outside := h.outside
  announced := h.announced

/-- A component that does not run may become busy, if no other one is. -/
theorem seize (h : Balanced host inside components waits busy owed)
    (hbusy : ∀ other, busy = some other → other = index) (hrun : ∀ run, .run index run ∉ waits) :
    Balanced host inside components waits (some index) owed where
  counted := h.counted
  given := h.given
  idle other component hcomponent hunsettled hne :=
    h.idle other component hcomponent hunsettled fun heq => hne (congrArg some (hbusy other heq).symm)
  runs other run hmem := by
    refine ⟨fun heq => ?_, (h.runs other run hmem).2⟩
    obtain rfl := Option.some.inj heq
    exact hrun run hmem
  once := h.once
  poised other component hcomponent hunsettled hwaiting :=
    (h.poised other component hcomponent hunsettled hwaiting).imp_left
      fun heq => congrArg some (hbusy other heq).symm
  outside := h.outside
  announced := h.announced

/-- The run of a component is taken out, which is busy then. -/
theorem takeOut {run : ComponentRun}
    (h : Balanced host inside components (.run index run :: waits) none owed) :
    Balanced host inside components waits (some index) owed where
  counted other component hcomponent hsettled := by
    rw [← h.counted other component hcomponent hsettled, countP_isOutside_run_cons]
  given := by simpa only [outside_mem_run_cons] using h.given
  idle other component hcomponent hsettled hbusy hrun := by
    refine h.idle other component hcomponent hsettled (fun heq => nomatch heq) fun found hmem => ?_
    refine hrun found ((List.mem_cons.1 hmem).resolve_left fun heq => ?_)
    cases heq
    exact hbusy rfl
  runs other found hmem := by
    refine ⟨fun heq => ?_, (h.runs other found (List.mem_cons_of_mem _ hmem)).2⟩
    obtain rfl := Option.some.inj heq
    have honce := h.once index
    rw [countP_isRun_cons, if_pos rfl] at honce
    exact countP_isRun_eq_zero.1 (by omega) found hmem
  once other := by
    have honce := h.once other
    rw [countP_isRun_cons] at honce
    omega
  poised other component hcomponent hsettled hwaiting := by
    obtain ⟨found, hmem⟩ := (h.poised other component hcomponent hsettled hwaiting).resolve_left
      fun heq => nomatch heq
    rcases List.mem_cons.1 hmem with heq | hmem
    · cases heq
      exact .inl rfl
    · exact .inr ⟨found, hmem⟩
  outside := by simpa only [outside_mem_run_cons] using h.outside
  announced := h.announced

/-- The run of a busy component is put back. -/
theorem putBack (h : Balanced host inside components waits (some index) owed) {component : Component}
    (hcomponent : components[index]? = some component) (hsettled : component.settled = false)
    (hwaiting : component.waiting = 0) {run : ComponentRun} {ran : List (Ref .record)}
    (hgood : run.Good host component.members ran) :
    Balanced host inside components (.run index run :: waits) none owed where
  counted other component hcomponent hsettled := by
    rw [← h.counted other component hcomponent hsettled, countP_isOutside_run_cons]
  given := by simpa only [outside_mem_run_cons] using h.given
  idle other component hcomponent hsettled _ hrun := by
    refine h.idle other component hcomponent hsettled (fun heq => ?_) fun found hmem =>
      hrun found (List.mem_cons_of_mem _ hmem)
    obtain rfl := Option.some.inj heq
    exact hrun run List.mem_cons_self
  runs other found hmem := by
    refine ⟨(fun heq => nomatch heq), ?_⟩
    rcases List.mem_cons.1 hmem with heq | hmem
    · cases heq
      exact ⟨component, hcomponent, hsettled, hwaiting, ran, hgood⟩
    · exact (h.runs other found hmem).2
  once other := by
    rw [countP_isRun_cons]
    split
    · rename_i hsame
      subst hsame
      have hnone := countP_isRun_eq_zero.2 fun found hmem => (h.runs index found hmem).1 rfl
      exact Nat.le_of_eq (by rw [hnone])
    · exact h.once other
  poised other component hcomponent hsettled hwaiting := by
    refine .inr ?_
    rcases h.poised other component hcomponent hsettled hwaiting with heq | ⟨found, hmem⟩
    · obtain rfl := Option.some.inj heq
      exact ⟨run, List.mem_cons_self⟩
    · exact ⟨found, List.mem_cons_of_mem _ hmem⟩
  outside := by simpa only [outside_mem_run_cons] using h.outside
  announced := h.announced

variable {completion : Completion}

/-- What a component waits for outside changes: what it stood for must be given or stood for still. -/
theorem rewait {waits' : List DriverWait} {owed' : List Nat}
    (h : Balanced host inside components waits busy owed)
    (hcounted : ∀ index (component : Component), components[index]? = some component →
      component.settled = false → waits'.countP (isOutside index) + owed'.count index =
        waits.countP (isOutside index) + owed.count index)
    (hgiven : ∀ index (component : Component), components[index]? = some component →
      component.settled = false → ∀ completion, .outside index completion ∈ waits → ∀ needed,
        completion.StandsFor host needed → host.GivenIn host.chronicle needed ∨
          ∃ completion, .outside index completion ∈ waits' ∧ completion.StandsFor host needed)
    (hruns : ∀ index run, .run index run ∈ waits' ↔ .run index run ∈ waits)
    (honce : ∀ index, waits'.countP (isRun index) = waits.countP (isRun index))
    (houtside : ∀ index completion, .outside index completion ∈ waits' → ∃ found,
      .outside index found ∈ waits ∧ ∀ ref, found.StandsFor host ref → completion.StandsFor host ref) :
    Balanced host inside components waits' busy owed' where
  counted index component hcomponent hsettled := by
    rw [← h.counted index component hcomponent hsettled, Nat.add_assoc, Nat.add_assoc,
      hcounted index component hcomponent hsettled]
  given index component hcomponent hsettled ref href needed hneeded := by
    rcases h.given index component hcomponent hsettled ref href needed hneeded with
      hmember | hknown | hearlier | ⟨found, hmem, hstands⟩
    · exact .inl hmember
    · exact .inr (.inl hknown)
    · exact .inr (.inr (.inl hearlier))
    · exact .inr ((hgiven index component hcomponent hsettled found hmem needed hstands).imp_right .inr)
  idle index component hcomponent hsettled hbusy hrun :=
    h.idle index component hcomponent hsettled hbusy fun run hmem => hrun run ((hruns index run).2 hmem)
  runs index run hmem := h.runs index run ((hruns index run).1 hmem)
  once index := by
    rw [honce]
    exact h.once index
  poised index component hcomponent hsettled hwaiting :=
    (h.poised index component hcomponent hsettled hwaiting).imp_right
      fun ⟨found, hmem⟩ => ⟨found, (hruns index found).2 hmem⟩
  outside index completion hmem := by
    obtain ⟨found, hfound, hsame⟩ := houtside index completion hmem
    obtain ⟨component, hcomponent, ref, href, needed, hneeded, hout, hstands⟩ := h.outside index found hfound
    exact ⟨component, hcomponent, ref, href, needed, hneeded, hout, hsame needed hstands⟩
  announced := h.announced

/-- A wait for something outside goes on as another one. -/
theorem outsideNext (h : Balanced host inside components (.outside index completion :: waits) busy owed)
    {next : Completion} (hnext : ∀ ref, completion.StandsFor host ref → next.StandsFor host ref) :
    Balanced host inside components (.outside index next :: waits) busy owed := by
  refine h.rewait (fun _ _ _ _ => ?_) (fun other _ _ _ found hmem needed hstands => .inr ?_)
    (fun _ _ => ?_) (fun _ => ?_) fun other found hmem => ?_
  · rw [countP_isOutside_cons, countP_isOutside_cons]
  · rcases List.mem_cons.1 hmem with heq | hmem
    · cases heq
      exact ⟨next, List.mem_cons_self, hnext needed hstands⟩
    · exact ⟨found, List.mem_cons_of_mem _ hmem, hstands⟩
  · rw [run_mem_outside_cons, run_mem_outside_cons]
  · rw [countP_isRun_outside_cons, countP_isRun_outside_cons]
  · rcases List.mem_cons.1 hmem with heq | hmem
    · cases heq
      exact ⟨completion, List.mem_cons_self, hnext⟩
    · exact ⟨found, List.mem_cons_of_mem _ hmem, fun _ hstands => hstands⟩

/-- What a component waits for outside was given: it has to be released. -/
theorem outsideGiven (h : Balanced host inside components (.outside index completion :: waits) busy owed)
    (hgiven : ∀ ref, completion.StandsFor host ref → host.GivenIn host.chronicle ref) :
    Balanced host inside components waits busy (index :: owed) := by
  refine h.rewait (fun other _ _ _ => ?_) (fun other _ _ _ found hmem needed hstands => ?_)
    (fun _ _ => run_mem_outside_cons.symm) (fun _ => countP_isRun_outside_cons.symm)
    fun other found hmem => ⟨found, List.mem_cons_of_mem _ hmem, fun _ hstands => hstands⟩
  · rw [countP_isOutside_cons, List.count_cons]
    simp only [beq_iff_eq]
    omega
  · rcases List.mem_cons.1 hmem with heq | hmem
    · cases heq
      exact .inl (hgiven needed hstands)
    · exact .inr ⟨found, hmem, hstands⟩

/-- What a component that has settled waits for outside is left out. -/
theorem outsideDropped (h : Balanced host inside components (.outside index completion :: waits) busy owed)
    (hsettled : ∀ component : Component, components[index]? = some component → component.settled = true) :
    Balanced host inside components waits busy owed := by
  have hne {other : Nat} {component : Component} (hcomponent : components[other]? = some component)
      (hunsettled : component.settled = false) : index ≠ other := by
    rintro rfl
    rw [hsettled component hcomponent] at hunsettled
    cases hunsettled
  refine h.rewait (fun other component hcomponent hunsettled => ?_)
    (fun other component hcomponent hunsettled found hmem needed hstands => .inr ?_)
    (fun _ _ => run_mem_outside_cons.symm) (fun _ => countP_isRun_outside_cons.symm)
    fun other found hmem => ⟨found, List.mem_cons_of_mem _ hmem, fun _ hstands => hstands⟩
  · rw [countP_isOutside_cons, if_neg (hne hcomponent hunsettled)]
    rfl
  · refine ⟨found, (List.mem_cons.1 hmem).resolve_left fun heq => ?_, hstands⟩
    cases heq
    exact hne hcomponent hunsettled rfl

variable {component : Component}

/-- Whatever a component that waits for nothing depends on is over. -/
theorem over_of_waiting (h : Balanced host inside components waits busy owed)
    (hcomponent : components[index]? = some component) (hsettled : component.settled = false)
    (hwaiting : component.waiting = 0) : (∀ earlier ∈ inside index, ∀ other : Component,
      components[earlier]? = some other → other.isOver host = true) ∧
        (∀ completion, .outside index completion ∉ waits) ∧ index ∉ owed := by
  have hcounted := h.counted index component hcomponent hsettled
  refine ⟨fun earlier hearlier other hother => ?_, fun completion hmem => ?_, fun hmem => ?_⟩
  · have hnone : (inside index).countP (Component.isOpen host components) = 0 := by omega
    have hopen := List.countP_eq_zero.1 hnone earlier hearlier
    rw [Component.isOpen_of_get? hother] at hopen
    simpa using hopen
  · have hsome : 0 < waits.countP (isOutside index) :=
      List.countP_pos_iff.2 ⟨_, hmem, decide_eq_true rfl⟩
    omega
  · have hsome : 0 < owed.count index := List.count_pos_iff.2 hmem
    omega

/-- A component that is owed a release, or depends on one that is not over, does not run. -/
theorem not_run (h : Balanced host inside components waits busy owed)
    (hcomponent : components[index]? = some component)
    (hwaiting : component.settled = false → component.waiting ≠ 0) : ∀ run, .run index run ∉ waits := by
  intro found hmem
  obtain ⟨-, other, hother, hsettled, hnone, -⟩ := h.runs index found hmem
  obtain rfl := Option.some.inj (hother.symm.trans hcomponent)
  exact hwaiting hsettled hnone

theorem given_keeps (h : Balanced host inside components waits busy owed) {others : List Component}
    (hkeeps : Component.KeepsMembers components others) {place : Nat} {old : Component}
    (hold : components[place]? = some old) (hsettled : old.settled = false)
    {ref needed : Ref .record} (href : ref ∈ old.members)
    (hneeded : needed ∈ host.dependencies (host.record ref)) :
    needed ∈ old.members ∨ host.GivenIn host.chronicle needed ∨
      (∃ earlier ∈ inside place, ∃ other : Component, others[earlier]? = some other ∧
        needed ∈ other.members) ∨
        ∃ completion, .outside place completion ∈ waits ∧ completion.StandsFor host needed := by
  refine (h.given place old hold hsettled ref href needed hneeded).imp_right
    (Or.imp_right (Or.imp_left ?_))
  rintro ⟨earlier, hearlier, other, hother, hmem⟩
  obtain ⟨found, hfound, hmembers⟩ := hkeeps earlier other hother
  exact ⟨earlier, hearlier, found, hfound, hmembers ▸ hmem⟩

theorem outside_keeps (h : Balanced host inside components waits busy owed) {others : List Component}
    (hkeeps : Component.KeepsMembers components others) {place : Nat} {completion : Completion}
    (hmem : .outside place completion ∈ waits) : ∃ component : Component,
      others[place]? = some component ∧ ∃ ref ∈ component.members,
        ∃ needed ∈ host.dependencies (host.record ref), needed ∉ component.members ∧
          completion.StandsFor host needed := by
  obtain ⟨old, hold, hwaits⟩ := h.outside place completion hmem
  obtain ⟨found, hfound, hmembers⟩ := hkeeps place old hold
  exact ⟨found, hfound, hmembers ▸ hwaits⟩

/-- A release is counted. A component that waits for nothing more is busy then. -/
theorem recount (h : Balanced host inside components waits none (index :: owed))
    (hcomponent : components[index]? = some component) (hsettled : component.settled = false) :
    Balanced host inside (Component.countDown components index) waits
      (if component.waiting = 1 then some index else none) owed where
  counted place found hfound hunsettled := by
    obtain ⟨old, hold, -, hsame, -, hwaiting⟩ := Component.countDown_back hfound
    have hcounted := h.counted place old hold (hsame.symm.trans hunsettled)
    rw [List.count_cons] at hcounted
    rw [Component.isOpen_countDown, hwaiting]
    split
    · rename_i hplace
      subst hplace
      rw [if_pos (beq_self_eq_true place)] at hcounted
      omega
    · rename_i hplace
      rw [if_neg (fun heq => hplace (beq_iff_eq.1 heq).symm)] at hcounted
      omega
  given place found hfound hunsettled ref href needed hneeded := by
    obtain ⟨old, hold, hmembers, hsame, -⟩ := Component.countDown_back hfound
    rw [hmembers] at href ⊢
    exact h.given_keeps (Component.countDown_keeps components index) hold (hsame.symm.trans hunsettled) href hneeded
  idle place found hfound hunsettled _ := by
    obtain ⟨old, hold, hmembers, hsame, -⟩ := Component.countDown_back hfound
    rw [hmembers]
    exact h.idle place old hold (hsame.symm.trans hunsettled) nofun
  runs place run hmem := by
    obtain ⟨-, old, hold, hunsettled, hnone, ran, hgood⟩ := h.runs place run hmem
    -- What is owed a release waits for something, so it does not run.
    have hne : index ≠ place := by
      rintro rfl
      exact (h.over_of_waiting hold hunsettled hnone).2.2 List.mem_cons_self
    refine ⟨fun heq => ?_, old, ?_, hunsettled, hnone, ran, hgood⟩
    · split at heq
      · exact hne (Option.some.inj heq)
      · cases heq
    · rw [Component.countDown, Component.getElem?_modify_of hold, if_neg hne]
  once := h.once
  poised place found hfound hunsettled hnone := by
    obtain ⟨old, hold, -, hsame, -, hwaiting⟩ := Component.countDown_back hfound
    have hunsettled := hsame.symm.trans hunsettled
    rw [hwaiting] at hnone
    split at hnone
    · rename_i hplace
      subst hplace
      obtain rfl := Option.some.inj (hold.symm.trans hcomponent)
      have hsome : old.waiting ≠ 0 := fun hzero =>
        (h.over_of_waiting hold hunsettled hzero).2.2 List.mem_cons_self
      exact .inl (if_pos (by omega))
    · exact .inr ((h.poised place old hold hunsettled hnone).resolve_left nofun)
  outside place completion := h.outside_keeps (Component.countDown_keeps components index)
  announced place found hfound hover := by
    obtain ⟨old, hold, -, hsame, hverdict, -⟩ := Component.countDown_back hfound
    rw [hverdict]
    exact h.announced place old hold (hsame.symm.trans hover)

/-- A component is released: it runs when it waits for nothing more. -/
theorem release (h : Balanced host inside components waits none (index :: owed))
    (hcomponent : components[index]? = some component) (hsettled : component.settled = false) :
    Balanced host inside (Component.countDown components index)
      (if component.waiting = 1 then .run index ⟨none, component.members⟩ :: waits else waits) none owed := by
  have hrecounted := h.recount hcomponent hsettled
  split
  · rename_i hwaiting
    rw [if_pos hwaiting] at hrecounted
    have hfound : (Component.countDown components index)[index]? =
        some { component with waiting := component.waiting - 1 } := by
      rw [Component.countDown, Component.getElem?_modify_of hcomponent, if_pos rfl]
    have hgood : ComponentRun.Good host component.members [] ⟨none, component.members⟩ :=
      ⟨rfl, (fun _ hmem => nomatch hmem), (fun _ _ heq => nomatch heq),
        h.idle index component hcomponent hsettled (fun heq => nomatch heq)
          (h.not_run hcomponent fun _ => by omega)⟩
    exact hrecounted.putBack hfound hsettled (by dsimp only; omega) hgood
  · rename_i hwaiting
    rwa [if_neg hwaiting] at hrecounted

/-- A busy component settles. -/
theorem settle (h : Balanced host inside components waits (some index) owed)
    (hcomponent : components[index]? = some component)
    (hspoken : ((host.verdicts.get? component.verdict).bind Verdict.result).isSome) {owed' : List Nat}
    (hcounted : ∀ place, place ≠ index →
      (inside place).countP (Component.isOpen host (DriverWork.markSettled components index)) +
          owed'.count place =
        (inside place).countP (Component.isOpen host components) + owed.count place) :
    Balanced host inside (DriverWork.markSettled components index) waits none owed' where
  counted place found hfound hopen := by
    obtain ⟨hne, hold⟩ := Component.unsettled_of_markSettled hfound hopen
    have hplace := hcounted place hne
    have hold := h.counted place found hold hopen
    omega
  given place found hfound hopen ref href needed := by
    obtain ⟨hne, hold⟩ := Component.unsettled_of_markSettled hfound hopen
    exact h.given_keeps (Component.markSettled_keeps components index) hold hopen href
  idle place found hfound hopen _ := by
    obtain ⟨hne, hold⟩ := Component.unsettled_of_markSettled hfound hopen
    exact h.idle place found hold hopen fun heq => hne (Option.some.inj heq).symm
  runs place run hmem := by
    obtain ⟨hne, old, hold, hrest⟩ := h.runs place run hmem
    refine ⟨nofun, old, ?_, hrest⟩
    rw [DriverWork.markSettled, Component.getElem?_modify_of hold, if_neg fun heq => hne (congrArg some heq)]
  once := h.once
  poised place found hfound hopen hnone := by
    obtain ⟨hne, hold⟩ := Component.unsettled_of_markSettled hfound hopen
    exact .inr ((h.poised place found hold hopen hnone).resolve_left
      fun heq => hne (Option.some.inj heq).symm)
  outside place completion := h.outside_keeps (Component.markSettled_keeps components index)
  announced place found hfound hover := by
    obtain ⟨old, hold, ⟨rfl, rfl⟩ | ⟨-, rfl⟩⟩ := Component.getElem?_modify_cases hfound
    · obtain rfl := Option.some.inj (hold.symm.trans hcomponent)
      exact hspoken
    · exact h.announced place found hold hover

/-- Only the component that settles may be over now. -/
theorem isOpen_markSettled {place : Nat} (hne : place ≠ index) :
    Component.isOpen host (DriverWork.markSettled components index) place =
      Component.isOpen host components place := by
  unfold Component.isOpen DriverWork.markSettled
  rw [List.getElem?_modify]
  cases components[place]? with
  | none => rfl
  | some found =>
    change (!Component.isOver host (if index = place then _ else _)) = _
    rw [if_neg (Ne.symm hne)]

theorem isOpen_settled (hcomponent : components[index]? = some component) :
    Component.isOpen host (DriverWork.markSettled components index) index =
      !component.members.all fun ref => (host.record ref).phase = .ready := by
  have hfound : (DriverWork.markSettled components index)[index]? =
      some { component with settled := true } := by
    unfold DriverWork.markSettled
    rw [Component.getElem?_modify_of hcomponent, if_pos rfl]
  rw [Component.isOpen_of_get? hfound]
  rfl

/-- A component succeeds: those that depend on it have to be released. -/
theorem succeed (h : Balanced host inside components waits (some index) [])
    (hwired : Wired host inside components) (hcomponent : components[index]? = some component)
    (hsettled : component.settled = false) (hready : ∀ ref ∈ component.members, (host.record ref).phase = .ready)
    (hspoken : ((host.verdicts.get? component.verdict).bind Verdict.result).isSome) :
    Balanced host inside (DriverWork.markSettled components index) waits none component.dependents := by
  refine h.settle hcomponent hspoken fun place _ => ?_
  obtain ⟨hnodup, hdependents⟩ := hwired.dependents index component hcomponent
  have hbefore : Component.isOpen host components index = true := by
    rw [Component.isOpen_of_get? hcomponent, Component.isOver_of_unsettled hsettled]
    rfl
  have hafter : Component.isOpen host (DriverWork.markSettled components index) index = false := by
    rw [isOpen_settled hcomponent]
    refine congrArg not (List.all_eq_true.2 fun ref href => ?_)
    exact decide_eq_true (hready ref href)
  rw [countP_flip (hwired.unique place) hbefore hafter fun other => isOpen_markSettled, List.count_nil,
    Nat.add_zero]
  by_cases hmem : index ∈ inside place
  · rw [if_pos hmem, hnodup.count, if_pos ((hdependents place).2 hmem)]
  · rw [if_neg hmem, List.count_eq_zero.2 fun hdepends => hmem ((hdependents place).1 hdepends)]

/-- A component fails. Whatever depends on it goes on waiting. -/
theorem fall (h : Balanced host inside components waits (some index) owed)
    (hcomponent : components[index]? = some component) (hsettled : component.settled = false)
    (hfallen : ∃ ref ∈ component.members, (host.record ref).phase ≠ .ready)
    (hspoken : ((host.verdicts.get? component.verdict).bind Verdict.result).isSome) :
    Balanced host inside (DriverWork.markSettled components index) waits none owed := by
  refine h.settle hcomponent hspoken fun place _ => ?_
  have hopen : Component.isOpen host (DriverWork.markSettled components index) =
      Component.isOpen host components := by
    funext other
    by_cases hsame : other = index
    · subst hsame
      rw [isOpen_settled hcomponent, Component.isOpen_of_get? hcomponent,
        Component.isOver_of_unsettled hsettled]
      obtain ⟨ref, href, hphase⟩ := hfallen
      refine congrArg not (Bool.eq_false_iff.2 fun hall => hphase ?_)
      exact of_decide_eq_true (List.all_eq_true.1 hall ref href)
    · exact isOpen_markSettled hsame
  rw [hopen]

end Balanced

end ModuleLoader
