import ModuleLoader.Proofs.Works
/-!
The components of a new driver: each waits for the components that its members depend on, once for each,
and for each record outside that they depend on.
-/

namespace ModuleLoader
set_option autoImplicit false

namespace Host

variable {ref : Ref .record}

theorem placed_members (index : Nat) : ∀ (members : List (Ref .record)) (places : Array (Option Nat)),
    (∀ member ∈ members, member.index < places.size) →
      ((members.foldl (fun places (member : Ref .record) =>
        places.setIfInBounds member.index (some index)) places)[ref.index]?).getD none =
          if ref ∈ members then some index else (places[ref.index]?).getD none
  | [], _, _ => rfl
  | first :: rest, places, hinside => by
    rw [List.foldl_cons, placed_members index rest _ fun member hmem => by
      rw [Array.size_setIfInBounds]
      exact hinside member (List.mem_cons_of_mem _ hmem)]
    by_cases hmem : ref ∈ rest
    · rw [if_pos hmem, if_pos (List.mem_cons_of_mem _ hmem)]
    · rw [if_neg hmem]
      by_cases hsame : ref = first
      · subst hsame
        rw [if_pos List.mem_cons_self, Array.getElem?_setIfInBounds_self_of_lt
          (hinside ref List.mem_cons_self)]
        rfl
      · have hindex : first.index ≠ ref.index := fun heq => hsame (by
          cases ref
          cases first
          exact congrArg Ref.mk heq.symm)
        rw [if_neg fun hcons => hmem ((List.mem_cons.1 hcons).resolve_left hsame),
          Array.getElem?_setIfInBounds_ne hindex]

/-- The place of the group of a record, when the groups from a place on are entered. -/
theorem placed_groups : ∀ (groups : List (List (Ref .record))) (start : Nat)
    (places : Array (Option Nat)), groups.flatten.Nodup →
      (∀ member ∈ groups.flatten, member.index < places.size) → ∀ index,
        (((groups.zipIdx start).foldl (fun places (members, index) =>
          members.foldl (fun places (member : Ref .record) =>
            places.setIfInBounds member.index (some index)) places) places)[ref.index]?).getD none =
              some index ↔
          (∃ place members, groups[place]? = some members ∧ ref ∈ members ∧ index = start + place) ∨
            ref ∉ groups.flatten ∧ (places[ref.index]?).getD none = some index
  | [], start, places, _, _, index => by simp
  | first :: rest, start, places, hnodup, hinside, index => by
    rw [List.flatten_cons] at hnodup hinside
    obtain ⟨-, hrest, hdisjoint⟩ := List.nodup_append.1 hnodup
    have hfirst : ((first.foldl (fun places (member : Ref .record) =>
        places.setIfInBounds member.index (some start)) places)[ref.index]?).getD none =
          if ref ∈ first then some start else (places[ref.index]?).getD none :=
      placed_members start first places fun member hmem => hinside member (List.mem_append_left _ hmem)
    have hsize : ∀ (members : List (Ref .record)) (places : Array (Option Nat)),
        (members.foldl (fun places (member : Ref .record) =>
          places.setIfInBounds member.index (some start)) places).size = places.size := by
      intro members
      induction members with
      | nil => exact fun _ => rfl
      | cons member others ih =>
        intro places
        rw [List.foldl_cons, ih, Array.size_setIfInBounds]
    rw [List.zipIdx_cons, List.foldl_cons, placed_groups rest (start + 1) _ hrest fun member hmem => by
      rw [hsize]
      exact hinside member (List.mem_append_right _ hmem), hfirst, List.flatten_cons, List.mem_append]
    by_cases hmem : ref ∈ first
    · have hout : ref ∉ rest.flatten := fun hmem' => hdisjoint ref hmem ref hmem' rfl
      rw [if_pos hmem]
      constructor
      · rintro (⟨place, members, hplace, href, -⟩ | ⟨-, heq⟩)
        · exact absurd (List.mem_flatten_of_mem (List.mem_of_getElem? hplace) href) hout
        · exact .inl ⟨0, first, rfl, hmem, (Option.some.inj heq).symm⟩
      · rintro (⟨place, members, hplace, href, heq⟩ | ⟨hnot, -⟩)
        · cases place with
          | zero => exact .inr ⟨hout, congrArg some heq.symm⟩
          | succ place =>
            rw [List.getElem?_cons_succ] at hplace
            exact absurd (List.mem_flatten_of_mem (List.mem_of_getElem? hplace) href) hout
        · exact absurd (.inl hmem) hnot
    · rw [if_neg hmem]
      constructor
      · rintro (⟨place, members, hplace, href, heq⟩ | ⟨hnot, heq⟩)
        · exact .inl ⟨place + 1, members, hplace, href, by omega⟩
        · exact .inr ⟨fun hor => hor.elim hmem hnot, heq⟩
      · rintro (⟨place, members, hplace, href, heq⟩ | ⟨hnot, heq⟩)
        · cases place with
          | zero =>
            cases hplace
            exact absurd href hmem
          | succ place => exact .inl ⟨place, members, hplace, href, by omega⟩
        · exact .inr ⟨fun hmem => hnot (.inr hmem), heq⟩

/-- The owner of a record is the component that has it as a member. -/
theorem ownerIn_eq_some {host : Host} {groups : List (List (Ref .record))}
    (hnodup : groups.flatten.Nodup)
    (hexist : ∀ ref ∈ groups.flatten, (host.records.get? ref).isSome) {index : Nat} :
    host.ownerIn groups ref = some index ↔
      ∃ members, groups[index]? = some members ∧ ref ∈ members := by
  have hinside : ∀ ref ∈ groups.flatten,
      ref.index < (Array.replicate host.records.size (none : Option Nat)).size := by
    intro ref hmem
    rw [Array.size_replicate]
    obtain ⟨record, hrecord⟩ := Option.isSome_iff_exists.1 (hexist ref hmem)
    exact (Array.getElem?_eq_some_iff.1 hrecord).1
  unfold ownerIn
  dsimp only
  rw [placed_groups groups 0 _ hnodup hinside index]
  constructor
  · rintro (⟨place, members, hplace, hmem, rfl⟩ | ⟨-, heq⟩)
    · exact ⟨members, by rwa [Nat.zero_add], hmem⟩
    · rw [Array.getElem?_replicate] at heq
      split at heq <;> cases heq
  · rintro ⟨members, hplace, hmem⟩
    exact .inl ⟨index, members, hplace, hmem, (Nat.zero_add index).symm⟩

end Host

namespace Dependencies

variable {owner : Ref .record → Option Nat} {index : Nat} {found : Dependencies} {record ref : Ref .record}

theorem add_outside (howner : owner record = none) : add owner index found record =
    if record ∈ found.seen then found
    else { found with seen := record :: found.seen, outside := found.outside ++ [record] } := by
  simp [add, howner]

theorem add_inside {other : Nat} (howner : owner record = some other) : add owner index found record =
    if other = index ∨ record ∈ found.seen then found
    else { found with
      seen := record :: found.seen
      inside := if other ∈ found.inside then found.inside else found.inside ++ [other] } := by
  simp only [add, howner, Bool.or_eq_true, decide_eq_true_eq, List.contains_iff_mem]
  by_cases hknown : other ∈ found.inside <;> simp [hknown]

theorem mem_seen_add : ref ∈ (add owner index found record).seen ↔
    ref ∈ found.seen ∨ ref = record ∧ owner record ≠ some index := by
  cases howner : owner record with
  | none =>
    rw [add_outside howner]
    split <;> grind
  | some other =>
    rw [add_inside howner]
    split <;> grind

theorem mem_inside_add {other : Nat} : other ∈ (add owner index found record).inside ↔
    other ∈ found.inside ∨ owner record = some other ∧ other ≠ index ∧ record ∉ found.seen := by
  cases howner : owner record with
  | none =>
    rw [add_outside howner]
    split <;> simp
  | some other =>
    rw [add_inside howner]
    split <;> grind

theorem mem_outside_add : ref ∈ (add owner index found record).outside ↔
    ref ∈ found.outside ∨ ref = record ∧ owner record = none ∧ record ∉ found.seen := by
  cases howner : owner record with
  | none =>
    rw [add_outside howner]
    split <;> grind
  | some other =>
    rw [add_inside howner]
    split <;> simp

theorem nodup_add (h : found.inside.Nodup) : (add owner index found record).inside.Nodup := by
  cases howner : owner record with
  | none =>
    rw [add_outside howner]
    split <;> exact h
  | some other =>
    rw [add_inside howner]
    split
    · exact h
    · change (if other ∈ found.inside then found.inside else found.inside ++ [other]).Nodup
      split
      · exact h
      · rename_i hnew
        exact List.nodup_append.2 ⟨h, List.nodup_singleton _, by grind⟩

/-- The dependencies that were found among some records: the other components they belong to, and those
that belong to none. -/
structure Found (owner : Ref .record → Option Nat) (index : Nat) (needed : List (Ref .record))
    (found : Dependencies) : Prop where
  seen : ∀ ref, ref ∈ found.seen ↔ ref ∈ needed ∧ owner ref ≠ some index
  nodup : found.inside.Nodup
  inside : ∀ other, other ∈ found.inside ↔ other ≠ index ∧ ∃ ref ∈ needed, owner ref = some other
  outside : ∀ ref, ref ∈ found.outside ↔ ref ∈ needed ∧ owner ref = none

theorem Found.nil : Found owner index [] ⟨[], [], []⟩ where
  seen _ := ⟨fun hmem => (nomatch hmem), fun h => nomatch h.1⟩
  nodup := List.nodup_nil
  inside _ := ⟨fun hmem => (nomatch hmem), fun ⟨_, _, hmem, _⟩ => nomatch hmem⟩
  outside _ := ⟨fun hmem => (nomatch hmem), fun h => nomatch h.1⟩

/-- One more record is taken in. -/
theorem Found.add {needed : List (Ref .record)} (h : Found owner index needed found)
    (record : Ref .record) : Found owner index (needed ++ [record]) (add owner index found record) where
  seen ref := by
    rw [mem_seen_add, h.seen, List.mem_append, List.mem_singleton]
    grind
  nodup := nodup_add h.nodup
  inside other := by
    rw [mem_inside_add, h.inside, h.seen]
    simp only [List.mem_append, List.mem_singleton]
    grind
  outside ref := by
    rw [mem_outside_add, h.outside, h.seen, List.mem_append, List.mem_singleton]
    grind

theorem Found.foldl : ∀ (more needed : List (Ref .record)) {found : Dependencies},
    Found owner index needed found →
      Found owner index (needed ++ more) (more.foldl (Dependencies.add owner index) found)
  | [], needed, _, h => by rwa [List.append_nil]
  | record :: rest, needed, _, h => by
    rw [← List.singleton_append, ← List.append_assoc]
    exact foldl rest _ (h.add record)

/-- All dependencies of the members of a component are found. -/
theorem ofMembers_found (owner : Ref .record → Option Nat) (index : Nat)
    (dependencies : Ref .record → List (Ref .record)) (members : List (Ref .record)) :
    Found owner index (members.flatMap dependencies) (ofMembers owner index dependencies members) := by
  have hfold : ofMembers owner index dependencies members =
      (members.flatMap dependencies).foldl (Dependencies.add owner index) ⟨[], [], []⟩ := by
    unfold ofMembers
    rw [List.foldl_flatMap]
  rw [hfold]
  exact Found.foldl _ [] .nil

end Dependencies

namespace Component

theorem getElem?_addDependent (index : Nat) : ∀ (others : List Nat) (components : List Component),
    others.Nodup → ∀ place, (addDependent components index others)[place]? =
      (components[place]?).map fun component =>
        if place ∈ others then { component with dependents := component.dependents ++ [index] }
        else component
  | [], components, _, place => by simp [addDependent]
  | other :: rest, components, hnodup, place => by
    obtain ⟨hnew, hrest⟩ := List.nodup_cons.1 hnodup
    unfold addDependent
    rw [getElem?_addDependent index rest _ hrest, List.getElem?_modify]
    cases components[place]? with
    | none => rfl
    | some component =>
      by_cases hsame : other = place
      · subst hsame
        simp [hnew]
      · have hne : place ≠ other := fun heq => hsame heq.symm
        simp [hsame, List.mem_cons, hne]

theorem length_addDependent (index : Nat) : ∀ (others : List Nat) (components : List Component),
    (addDependent components index others).length = components.length
  | [], _ => rfl
  | other :: rest, components => by
    unfold addDependent
    rw [length_addDependent index rest, List.length_modify]

end Component

namespace Host

variable (host : Host) (owner : Ref .record → Option Nat)

/-- What the members of a component depend on. -/
def found (index : Nat) (members : List (Ref .record)) : Dependencies :=
  Dependencies.ofMembers owner index (fun member => host.dependencies (host.record member)) members

theorem found_found (index : Nat) (members : List (Ref .record)) : Dependencies.Found owner index
    (members.flatMap fun member => host.dependencies (host.record member))
    (host.found owner index members) :=
  Dependencies.ofMembers_found owner index _ members

/-- The components that a component depends on. -/
def insideOf (groups : List (List (Ref .record) × Ref .verdict)) (index : Nat) : List Nat :=
  match groups[index]? with
  | some (members, _) => (host.found owner index members).inside
  | none => []

/-- The components of the first groups of a driver. -/
structure Planned (groups : List (List (Ref .record) × Ref .verdict)) (components : List Component) :
    Prop where
  length : components.length = groups.length
  component : ∀ index members verdict, groups[index]? = some (members, verdict) →
    ∃ component, components[index]? = some component ∧ component.members = members ∧
      component.verdict = verdict ∧ component.settled = false ∧
        component.waiting = (host.found owner index members).inside.length +
          (host.found owner index members).outside.length ∧
        component.outside = (host.found owner index members).outside.map host.completion ∧
          component.dependents.Nodup ∧
            ∀ other, other ∈ component.dependents ↔ index ∈ host.insideOf owner groups other

variable {host owner}

theorem mem_insideOf {groups : List (List (Ref .record) × Ref .verdict)} {index other : Nat} :
    other ∈ host.insideOf owner groups index ↔ other ≠ index ∧ ∃ members verdict,
      groups[index]? = some (members, verdict) ∧ ∃ ref ∈ members,
        ∃ needed ∈ host.dependencies (host.record ref), owner needed = some other := by
  unfold insideOf
  split
  · rename_i members verdict hgroup
    rw [(host.found_found owner index members).inside]
    refine and_congr_right fun _ => ⟨?_, ?_⟩
    · rintro ⟨needed, hneeded, howner⟩
      obtain ⟨ref, href, hdepends⟩ := List.mem_flatMap.1 hneeded
      exact ⟨members, verdict, hgroup, ref, href, needed, hdepends, howner⟩
    · rintro ⟨members', verdict', hgroup', ref, href, needed, hdepends, howner⟩
      obtain ⟨rfl, rfl⟩ := Prod.mk.inj (Option.some.inj (hgroup.symm.trans hgroup'))
      exact ⟨needed, List.mem_flatMap.2 ⟨ref, href, hdepends⟩, howner⟩
  · rename_i hnone
    refine ⟨fun hmem => (nomatch hmem), ?_⟩
    rintro ⟨-, members, verdict, hgroup, -⟩
    rw [hnone] at hgroup
    cases hgroup

theorem insideOf_nodup (groups : List (List (Ref .record) × Ref .verdict)) (index : Nat) :
    (host.insideOf owner groups index).Nodup := by
  unfold insideOf
  split
  · exact (host.found_found owner index _).nodup
  · exact List.nodup_nil

/-- More groups change nothing about what a component depends on. -/
theorem insideOf_append {groups : List (List (Ref .record) × Ref .verdict)}
    (more : List (List (Ref .record) × Ref .verdict)) {index : Nat} (hlt : index < groups.length) :
    host.insideOf owner (groups ++ more) index = host.insideOf owner groups index := by
  unfold insideOf
  rw [List.getElem?_append_left hlt]

theorem insideOf_beyond {groups : List (List (Ref .record) × Ref .verdict)} {index : Nat}
    (hle : groups.length ≤ index) : host.insideOf owner groups index = [] := by
  unfold insideOf
  rw [List.getElem?_eq_none hle]

theorem insideOf_last (groups : List (List (Ref .record) × Ref .verdict)) (members : List (Ref .record))
    (verdict : Ref .verdict) : host.insideOf owner (groups ++ [(members, verdict)]) groups.length =
      (host.found owner groups.length members).inside := by
  unfold insideOf
  rw [List.getElem?_append_right (Nat.le_refl _), Nat.sub_self]
  rfl

/-- With one group more, only the new component depends on more. -/
theorem mem_insideOf_snoc {groups : List (List (Ref .record) × Ref .verdict)}
    {members : List (Ref .record)} {verdict : Ref .verdict} {index other : Nat} :
    index ∈ host.insideOf owner (groups ++ [(members, verdict)]) other ↔
      index ∈ host.insideOf owner groups other ∨
        other = groups.length ∧ index ∈ (host.found owner groups.length members).inside := by
  rcases Nat.lt_trichotomy other groups.length with hlt | rfl | hgt
  · rw [insideOf_append _ hlt]
    exact (or_iff_left fun h => Nat.ne_of_lt hlt h.1).symm
  · rw [insideOf_last, insideOf_beyond (Nat.le_refl _), and_iff_right rfl]
    exact (or_iff_right List.not_mem_nil).symm
  · rw [insideOf_beyond (Nat.le_of_lt hgt),
      insideOf_beyond (by rw [List.length_append, List.length_singleton]; omega)]
    exact (or_iff_left fun h => Nat.ne_of_gt hgt h.1).symm

/-- The next group is planned: no component before it depends on it. -/
theorem Planned.snoc {groups : List (List (Ref .record) × Ref .verdict)} {components : List Component}
    (h : host.Planned owner groups components) {members : List (Ref .record)} {verdict : Ref .verdict}
    (hearlier : ∀ index, ∀ other ∈ host.insideOf owner (groups ++ [(members, verdict)]) index, other < index) :
    host.Planned owner (groups ++ [(members, verdict)])
      (Component.addDependent components groups.length
        (host.found owner groups.length members).inside ++ [
          { members, waiting := (host.found owner groups.length members).inside.length +
              (host.found owner groups.length members).outside.length
            dependents := []
            outside := (host.found owner groups.length members).outside.map host.completion
            verdict, settled := false }]) := by
  have hnodup := (host.found_found owner groups.length members).nodup
  have hlength := (Component.length_addDependent groups.length
    (host.found owner groups.length members).inside components).trans h.length
  refine ⟨?_, fun index found place hgroup => ?_⟩
  · rw [List.length_append, List.length_append, hlength]
    rfl
  rcases Nat.lt_trichotomy index groups.length with hlt | rfl | hgt
  · -- A component that was there is one that the new one depends on, or stays what it is.
    rw [List.getElem?_append_left hlt] at hgroup
    obtain ⟨component, hcomponent, rfl, rfl, hsettled, hwaiting, houtside, hunique, hdependents⟩ :=
      h.component index found place hgroup
    rw [List.getElem?_append_left (Nat.lt_of_lt_of_eq hlt hlength.symm),
      Component.getElem?_addDependent _ _ _ hnodup, hcomponent, Option.map_some]
    by_cases hinside : index ∈ (host.found owner groups.length members).inside
    · rw [if_pos hinside]
      refine ⟨_, rfl, rfl, rfl, hsettled, hwaiting, houtside, ?_, fun other => ?_⟩
      · have hnew : groups.length ∉ component.dependents := by
          rw [hdependents, insideOf_beyond (Nat.le_refl _)]
          exact List.not_mem_nil
        refine List.nodup_append.2 ⟨hunique, List.nodup_singleton _, fun other hmem last hlast heq => ?_⟩
        exact hnew (List.mem_singleton.1 hlast ▸ heq ▸ hmem)
      · rw [List.mem_append, List.mem_singleton, mem_insideOf_snoc, hdependents, and_iff_left hinside]
    · rw [if_neg hinside]
      refine ⟨_, rfl, rfl, rfl, hsettled, hwaiting, houtside, hunique, fun other => ?_⟩
      rw [mem_insideOf_snoc, hdependents]
      exact (or_iff_left fun h => hinside h.2).symm
  · rw [List.getElem?_append_right (Nat.le_refl _), Nat.sub_self] at hgroup
    obtain ⟨rfl, rfl⟩ := Prod.mk.inj (Option.some.inj hgroup)
    rw [List.getElem?_append_right (Nat.le_of_eq hlength), hlength, Nat.sub_self]
    refine ⟨_, rfl, rfl, rfl, rfl, rfl, rfl, List.nodup_nil, fun other =>
      ⟨fun hmem => (nomatch hmem), fun hmem => ?_⟩⟩
    have hlt := hearlier other _ hmem
    rw [insideOf_beyond (by rw [List.length_append, List.length_singleton]; omega)] at hmem
    cases hmem
  · rw [List.getElem?_eq_none (by rw [List.length_append, List.length_singleton]; omega)] at hgroup
    cases hgroup

/-- All components of a driver, when no component depends on a later one. -/
theorem componentsOf_planned : ∀ (rest groups : List (List (Ref .record) × Ref .verdict))
    {components : List Component}, host.Planned owner groups components →
      (∀ index, ∀ other ∈ host.insideOf owner (groups ++ rest) index, other < index) →
        host.Planned owner (groups ++ rest) (host.componentsOf owner groups.length components rest)
  | [], groups, _, h, _ => by rwa [List.append_nil]
  | (members, verdict) :: rest, groups, components, h, hearlier => by
    rw [← List.singleton_append, ← List.append_assoc] at hearlier ⊢
    have hinside : ∀ index, ∀ other ∈ host.insideOf owner (groups ++ [(members, verdict)]) index,
        other < index := by
      intro index other hmem
      by_cases hlt : index < (groups ++ [(members, verdict)]).length
      · exact hearlier index other (by rwa [insideOf_append rest hlt])
      · rw [insideOf_beyond (Nat.le_of_not_lt hlt)] at hmem
        cases hmem
    have hnext := h.snoc hinside
    have hlength : (groups ++ [(members, verdict)]).length = groups.length + 1 := by
      rw [List.length_append, List.length_singleton]
    have hrest := componentsOf_planned rest _ hnext hearlier
    rw [hlength] at hrest
    exact hrest

end Host

namespace DriverWork

/-- What a driver waits for at first because of one component. -/
def waitsOf (pair : Component × Nat) : List DriverWait :=
  pair.1.outside.map (.outside pair.2) ++
    (if pair.1.waiting = 0 then [.run pair.2 ⟨none, pair.1.members⟩] else [])

theorem firstWaits_eq (components : List Component) :
    firstWaits components = components.zipIdx.flatMap waitsOf :=
  rfl

theorem mem_firstWaits {components : List Component} {wait : DriverWait} :
    wait ∈ firstWaits components ↔
      ∃ index component, components[index]? = some component ∧ wait ∈ waitsOf (component, index) := by
  rw [firstWaits_eq, List.mem_flatMap]
  constructor
  · rintro ⟨⟨component, index⟩, hmem, hwait⟩
    exact ⟨index, component, List.mem_zipIdx_iff_getElem?.1 hmem, hwait⟩
  · rintro ⟨index, component, hcomponent, hwait⟩
    exact ⟨(component, index), List.mem_zipIdx_iff_getElem?.2 hcomponent, hwait⟩

theorem mem_waitsOf_outside {component : Component} {place index : Nat} {completion : Completion} :
    .outside index completion ∈ waitsOf (component, place) ↔
      index = place ∧ completion ∈ component.outside := by
  unfold waitsOf
  rw [List.mem_append]
  constructor
  · rintro (hmem | hmem)
    · obtain ⟨found, hfound, heq⟩ := List.mem_map.1 hmem
      cases heq
      exact ⟨rfl, hfound⟩
    · split at hmem
      · cases List.mem_singleton.1 hmem
      · cases hmem
  · rintro ⟨rfl, hmem⟩
    exact .inl (List.mem_map_of_mem hmem)

theorem mem_waitsOf_run {component : Component} {place index : Nat} {run : ComponentRun} :
    .run index run ∈ waitsOf (component, place) ↔
      index = place ∧ component.waiting = 0 ∧ run = ⟨none, component.members⟩ := by
  unfold waitsOf
  rw [List.mem_append]
  constructor
  · rintro (hmem | hmem)
    · obtain ⟨found, -, heq⟩ := List.mem_map.1 hmem
      cases heq
    · split at hmem
      · rename_i hwaiting
        cases List.mem_singleton.1 hmem
        exact ⟨rfl, hwaiting, rfl⟩
      · cases hmem
  · rintro ⟨rfl, hwaiting, rfl⟩
    exact .inr (by rw [if_pos hwaiting]; exact List.mem_singleton_self _)

/-- What is counted once for each wait of one component is counted for that component alone. -/
theorem countP_waitsOf {count : DriverWait → Bool} {index : Nat} {size : Component → Nat}
    (hcount : ∀ component place, (waitsOf (component, place)).countP count =
      if place = index then size component else 0) : ∀ (components : List Component) (start : Nat),
    ((components.zipIdx start).flatMap waitsOf).countP count =
      if index < start then 0 else ((components[index - start]?).map size).getD 0
  | [], start => by simp
  | component :: rest, start => by
    rw [List.zipIdx_cons, List.flatMap_cons, List.countP_append, hcount,
      countP_waitsOf hcount rest (start + 1)]
    rcases Nat.lt_trichotomy index start with hlt | rfl | hgt
    · rw [if_neg (Nat.ne_of_gt hlt), if_pos (Nat.lt_succ_of_lt hlt), if_pos hlt]
    · rw [if_pos rfl, if_pos (Nat.lt_succ_self _), if_neg (Nat.lt_irrefl _), Nat.sub_self]
      rfl
    · obtain ⟨gap, rfl⟩ := Nat.exists_eq_add_of_lt hgt
      rw [if_neg (Nat.ne_of_lt hgt), if_neg (by omega), if_neg (by omega),
        show start + gap + 1 - (start + 1) = gap by omega, show start + gap + 1 - start = gap + 1 by omega,
        List.getElem?_cons_succ, Nat.zero_add]

theorem countP_outside (components : List Component) (index : Nat) :
    (firstWaits components).countP (DriverWait.isOutside index) =
      ((components[index]?).map fun component => component.outside.length).getD 0 := by
  have hcount (component : Component) (place : Nat) :
      (waitsOf (component, place)).countP (DriverWait.isOutside index) =
        if place = index then component.outside.length else 0 := by
    unfold waitsOf
    rw [List.countP_append, List.countP_map]
    have hruns : (if component.waiting = 0 then [DriverWait.run place ⟨none, component.members⟩]
        else []).countP (DriverWait.isOutside index) = 0 := by
      split <;> rfl
    rw [hruns, Nat.add_zero]
    split
    · rename_i hsame
      subst hsame
      exact List.countP_eq_length.2 fun _ _ => decide_eq_true rfl
    · rename_i hne
      exact List.countP_eq_zero.2 fun _ _ h => hne (of_decide_eq_true h)
  rw [firstWaits_eq, countP_waitsOf hcount, if_neg (Nat.not_lt_zero _), Nat.sub_zero]

theorem countP_run_le (components : List Component) (index : Nat) :
    (firstWaits components).countP (DriverWait.isRun index) ≤ 1 := by
  have hcount (component : Component) (place : Nat) :
      (waitsOf (component, place)).countP (DriverWait.isRun index) =
        if place = index then (if component.waiting = 0 then 1 else 0) else 0 := by
    unfold waitsOf
    rw [List.countP_append, List.countP_map]
    have houtside : component.outside.countP (DriverWait.isRun index ∘ DriverWait.outside place) = 0 :=
      List.countP_eq_zero.2 fun _ _ h => Bool.false_ne_true h
    rw [houtside, Nat.zero_add]
    split
    · rename_i hwaiting
      rw [List.countP_singleton]
      by_cases hsame : place = index
      · subst hsame
        rw [if_pos rfl]
        exact if_pos (decide_eq_true rfl)
      · rw [if_neg hsame]
        exact if_neg fun h => hsame (of_decide_eq_true h)
    · split <;> rfl
  rw [firstWaits_eq, countP_waitsOf hcount, if_neg (Nat.not_lt_zero _)]
  cases components[index - 0]? with
  | none => exact Nat.zero_le 1
  | some component =>
    change (if component.waiting = 0 then 1 else 0) ≤ 1
    split <;> decide

end DriverWork

end ModuleLoader
