import ModuleLoader.Proofs.Breakdowns
/-!
Searches in two batches that look alike in a region of records. Where the first batch has pairs that
are settled already, the second one may answer in another way, as long as it answers alike.
-/

namespace ModuleLoader
set_option autoImplicit false

namespace Batch

/-- Two results of a search: both failed, both found nothing, or they found origins that are alike. -/
inductive Echoes (alike : Origin → Origin → Prop) :
    Except Failure (Option Origin) → Except Failure (Option Origin) → Prop where
  | failed (failure failure' : Failure) : Echoes alike (.error failure) (.error failure')
  | nothing : Echoes alike (.ok none) (.ok none)
  | found {origin origin' : Origin} : alike origin origin' →
      Echoes alike (.ok (some origin)) (.ok (some origin'))

theorem Echoes.refl {alike : Origin → Origin → Prop} (h : ∀ origin, alike origin origin) :
    ∀ result, Echoes alike result result
  | .error failure => .failed failure failure
  | .ok none => .nothing
  | .ok (some origin) => .found (h origin)

theorem Echoes.symm {alike : Origin → Origin → Prop} {result result' : Except Failure (Option Origin)}
    (h : Echoes alike result result') : Echoes (fun origin' origin => alike origin origin') result' result := by
  cases h with
  | failed failure failure' => exact .failed failure' failure
  | nothing => exact .nothing
  | found halike => exact .found halike

/-- Two batches have the same units in a region, and outside records export the same there, but for
pairs that are settled. The region is closed under requests. -/
structure Mirrors (batch batch' : Batch) (region : Ref .record → Prop)
    (settled : Ref .record × String → Prop) : Prop where
  closed : ∀ record name unit, region record → ¬ settled (record, name) →
    batch.unitOf record = some unit → ∀ request ∈ unit.requests, ∀ target,
      request.target = some target → region target
  unit : ∀ record name, region record → ¬ settled (record, name) →
    batch'.unitOf record = batch.unitOf record
  outside : ∀ record name, region record → ¬ settled (record, name) →
    batch.unitOf record = none → batch'.outside record = batch.outside record

variable {batch batch' : Batch} {region : Ref .record → Prop}
  {settled : Ref .record × String → Prop} {alike : Origin → Origin → Prop}

/-- Two searches have looked at the same pairs of the region, and settled pairs that the first one has
looked at are lost. -/
structure Kept (batch : Batch) (region : Ref .record → Prop) (settled : Ref .record × String → Prop)
    (visited visited' : Visited) : Prop where
  same : ∀ pair, region pair.1 → ¬ settled pair → (batch.unitOf pair.1).isSome →
    (pair ∈ visited ↔ pair ∈ visited')
  lost : ∀ pair ∈ visited, settled pair → batch.Lost pair

theorem Kept.cons {visited visited' : Visited} (h : batch.Kept region settled visited visited')
    {pair : Ref .record × String} (hpair : ¬ settled pair) :
    batch.Kept region settled (pair :: visited) (pair :: visited') where
  same other hregion hsettled hunit := by
    rw [List.mem_cons, List.mem_cons, h.same other hregion hsettled hunit]
  lost other hmem hsettled := by
    rcases List.mem_cons.1 hmem with rfl | hmem
    · exact absurd hsettled hpair
    · exact h.lost other hmem hsettled

/-- Two searches gave alike results, and if they found nothing they may be gone on with. -/
structure Parallel (batch : Batch) (region : Ref .record → Prop)
    (settled : Ref .record × String → Prop) (alike : Origin → Origin → Prop)
    (found found' : Found) : Prop where
  result : Echoes alike found.2 found'.2
  kept : found.2 = .ok none → batch.Kept region settled found.1 found'.1

theorem Echoes.demand {result result' : Except Failure (Option Origin)} (h : Echoes alike result result')
    (missing : Option Failure) : Echoes alike (Batch.demand missing result) (Batch.demand missing result') := by
  cases h with
  | failed failure failure' => exact .failed failure failure'
  | nothing =>
    cases missing with
    | none => exact .nothing
    | some failure => exact .failed failure failure
  | found halike => exact .found halike

theorem Echoes.nothing_iff {result result' : Except Failure (Option Origin)}
    (h : Echoes alike result result') : result = .ok none ↔ result' = .ok none := by
  cases h <;> simp

theorem Parallel.nothing {visited visited' : Visited}
    (hkept : batch.Kept region settled visited visited') :
    batch.Parallel region settled alike (visited, .ok none) (visited', .ok none) :=
  ⟨.nothing, fun _ => hkept⟩

theorem Parallel.firstFound {search search' : Visited → Ref .record → Found} {limit : Nat}
    {pairs : List (Ref .record × String)}
    (hgrows : ∀ visited record pair, pair ∈ visited → pair ∈ (search visited record).1) :
    ∀ {records : List (Ref .record)} {visited visited' : Visited},
      (∀ record ∈ records, ∀ visited visited', unmet pairs visited < limit →
        batch.Kept region settled visited visited' →
          batch.Parallel region settled alike (search visited record) (search' visited' record)) →
        unmet pairs visited < limit → batch.Kept region settled visited visited' →
          batch.Parallel region settled alike (firstFound search visited records)
            (firstFound search' visited' records)
  | [], _, _, _, _, hkept => .nothing hkept
  | record :: rest, visited, visited', hsearch, hlimit, hkept => by
    have hfirst := hsearch record List.mem_cons_self visited visited' hlimit hkept
    by_cases hnone : (search visited record).2 = .ok none
    · rw [firstFound_none hnone, firstFound_none (hfirst.result.nothing_iff.1 hnone)]
      exact Parallel.firstFound hgrows (fun other hmem => hsearch other (List.mem_cons_of_mem _ hmem))
        (Nat.lt_of_le_of_lt (unmet_le fun pair => hgrows visited record pair) hlimit)
        (hfirst.kept hnone)
    · rw [firstFound_stop hnone, firstFound_stop (mt hfirst.result.nothing_iff.2 hnone)]
      exact hfirst

theorem Parallel.pursue {search search' : Visited → Ref .record → String → Found} {limit : Nat}
    {pairs : List (Ref .record × String)}
    (hgrows : ∀ {visited pair} record name, pair ∈ visited → pair ∈ (search visited record name).1)
    (hrefl : ∀ origin, alike origin origin) {visited visited' : Visited} {quest : Quest} {name : String}
    (hsearch : ∀ next ∈ quest.onward name, ∀ visited visited', unmet pairs visited < limit →
      batch.Kept region settled visited visited' → batch.Parallel region settled alike
        (search visited next.1 next.2) (search' visited' next.1 next.2))
    (hlimit : unmet pairs visited < limit) (hkept : batch.Kept region settled visited visited') :
    batch.Parallel region settled alike (quest.pursue search visited name)
      (quest.pursue search' visited' name) := by
  cases quest with
  | answer result => exact ⟨.refl hrefl result, fun _ => hkept⟩
  | follow target remote missing =>
    obtain ⟨hresult, hnext⟩ := hsearch _ (List.mem_singleton_self _) visited visited' hlimit hkept
    exact ⟨hresult.demand missing, fun hnone => hnext (demand_eq_nothing.1 hnone).2⟩
  | spread targets =>
    exact Parallel.firstFound (fun before target pair => hgrows target name)
      (fun target hmem => hsearch _ (List.mem_map_of_mem hmem)) hlimit hkept

/-- The records that stars lead to are requested. -/
theorem request_of_starRecords {unit : LinkUnit} {targets : List (Ref .record)}
    (h : unit.starRecords = .ok targets) {target : Ref .record} (hmem : target ∈ targets) :
    ∃ request ∈ unit.requests, request.target = some target := by
  obtain ⟨source, -, htarget⟩ := LinkUnit.mem_targets h target hmem
  exact request_of_target htarget

/-- The records that are looked at next are requested. -/
theorem request_of_onward {unit : LinkUnit} {name : String} {quest : Quest}
    (hposes : Poses unit name quest) {next : Ref .record × String} (hnext : next ∈ quest.onward name) :
    ∃ request ∈ unit.requests, request.target = some next.1 := by
  cases hposes with
  | failed | found | reserved | starless => cases hnext
  | forward hstep =>
    cases List.mem_singleton.1 hnext
    obtain ⟨source, htarget⟩ := LinkUnit.target_of_exportStep hstep (.inl rfl)
    exact request_of_target htarget
  | require hstep =>
    cases List.mem_singleton.1 hnext
    obtain ⟨source, htarget⟩ := LinkUnit.target_of_exportStep hstep (.inr ⟨_, rfl⟩)
    exact request_of_target htarget
  | stars _ _ htargets =>
    obtain ⟨target, hmem, rfl⟩ := List.mem_map.1 hnext
    exact request_of_starRecords htargets (List.mem_reverse.1 hmem)

section
variable (h : Mirrors batch batch' region settled) (halike : ∀ origin, alike origin origin)
  (hproper : batch.Proper) (start : String)
  (hsettled : ∀ fuel visited visited' record name, region record → settled (record, name) →
    name ∈ batch.namesMet start → unmet (batch.pairsMet start) visited < fuel →
      batch.Kept region settled visited visited' →
        batch.Parallel region settled alike (batch.search fuel visited record name)
          (batch'.search fuel visited' record name))

include h halike hproper hsettled in
/-- Searches in the two batches go on alike, if they do at the pairs that are settled. -/
theorem Mirrors.search : ∀ (fuel : Nat) {visited visited' : Visited} (record : Ref .record)
    (name : String), region record → name ∈ batch.namesMet start →
      unmet (batch.pairsMet start) visited < fuel → batch.Kept region settled visited visited' →
        batch.Parallel region settled alike (batch.search fuel visited record name)
          (batch'.search fuel visited' record name)
  | 0, _, _, _, _, _, _, hfuel, _ => absurd hfuel (Nat.not_lt_zero _)
  | fuel + 1, visited, visited', record, name, hregion, hname, hfuel, hkept => by
    by_cases hpair : settled (record, name)
    · exact hsettled (fuel + 1) visited visited' record name hregion hpair hname hfuel hkept
    have hsame := h.unit record name hregion hpair
    cases hunit : batch.unitOf record with
    | none =>
      rw [search_outside hunit, search_outside (hsame.trans hunit),
        h.outside record name hregion hpair hunit]
      exact ⟨.refl halike _, fun _ => hkept⟩
    | some unit =>
      have hunit' := hsame.trans hunit
      have hboth : (record, name) ∈ visited ↔ (record, name) ∈ visited' :=
        hkept.same (record, name) hregion hpair (by rw [hunit]; rfl)
      by_cases hseen : (record, name) ∈ visited
      · rw [search_seen hunit hseen, search_seen hunit' (hboth.1 hseen)]
        exact .nothing hkept
      obtain ⟨quest, hposes⟩ := exists_poses unit name
      rw [search_new hunit hseen hposes, search_new hunit' (mt hboth.2 hseen) hposes]
      refine Parallel.pursue (mem_search fuel) halike (fun next hnext before before' hlimit hbefore => ?_)
        (unmet_next hproper hunit hname hseen hfuel) (hkept.cons hpair)
      obtain ⟨request, hrequest, htarget⟩ := request_of_onward hposes hnext
      exact Mirrors.search fuel next.1 next.2
        (h.closed record name unit hregion hpair hunit request hrequest next.1 htarget)
        (namesMet_of_onward hproper hunit hposes hname hnext) hlimit hbefore

end

/-- The records are closed under the requests of the batch. -/
def Closed (batch : Batch) (inside : Ref .record → Prop) : Prop :=
  ∀ record unit, inside record → batch.unitOf record = some unit →
    ∀ request ∈ unit.requests, ∀ target, request.target = some target → inside target

/-- The lost pairs of a closed set of records are dead by themselves. -/
theorem Closed.dead {inside : Ref .record → Prop} (h : batch.Closed inside) :
    batch.Dead fun pair => batch.Lost pair ∧ inside pair.1 := by
  rintro record name ⟨hlost, hinside⟩
  have hend := dead_lost record name hlost
  cases hunit : batch.unitOf record with
  | none =>
    obtain ⟨exports, hexports, hslot⟩ := hend.of_none hunit
    exact .outside hunit hexports hslot
  | some unit =>
    rcases hend.of_some hunit with ⟨target, remote, hstep, hnext⟩ |
      ⟨hstep, hname | ⟨targets, htargets, hnext⟩⟩
    · obtain ⟨request, hrequest, htarget⟩ :=
        request_of_onward (.forward hstep) (List.mem_singleton_self _)
      exact .forward hunit hstep ⟨hnext, h record unit hinside hunit request hrequest target htarget⟩
    · exact .reserved hunit hstep hname
    · refine .stars hunit hstep htargets fun target hmem => ⟨hnext target hmem, ?_⟩
      obtain ⟨request, hrequest, htarget⟩ := request_of_starRecords htargets hmem
      exact h record unit hinside hunit request hrequest target htarget

/-- A search on a record that answers finds what it finds from the start, if all that was looked at
before among the records it can come to is lost. -/
theorem Answers.search (hproper : batch.Proper) {inside : Ref .record → Prop}
    (hclosed : batch.Closed inside) {record : Ref .record} (hinside : inside record)
    (hanswers : batch.Answers record) {visited : Visited}
    (hlost : ∀ pair ∈ visited, inside pair.1 → (batch.unitOf pair.1).isSome → batch.Lost pair)
    {start name : String} (hname : name ∈ batch.namesMet start) {fuel : Nat}
    (hfuel : unmet (batch.pairsMet start) visited < fuel) :
    (batch.search fuel visited record name).2 = batch.originOf record name ∧
      (batch.originOf record name = .ok none →
        ∀ pair ∈ (batch.search fuel visited record name).1,
          pair ∈ visited ∨ batch.Lost pair ∧ inside pair.1) := by
  rcases hanswers.exports_or_lost hproper name with ⟨origin, horigin⟩ | hpair
  · refine ⟨?_, fun hnone => ?_⟩
    · have hbound := unmet_lt_bound batch start
      have hmirrors : Mirrors batch batch inside batch.Lost :=
        ⟨fun record _ unit hregion _ => hclosed record unit hregion, fun _ _ _ _ => rfl,
          fun _ _ _ _ _ => rfl⟩
      have hempty (fuel : Nat) (before before' : Visited) (record : Ref .record) (name : String)
          (hpair : batch.Lost (record, name))
          (hbefore : batch.Kept inside batch.Lost before before') :
          batch.Parallel inside batch.Lost Eq (batch.search fuel before record name)
            (batch.search fuel before' record name) := by
        have hempty : CameUpEmpty batch.Lost before (batch.search fuel before record name) :=
          dead_lost.search fuel hpair
        have hempty' : CameUpEmpty batch.Lost before' (batch.search fuel before' record name) :=
          dead_lost.search fuel hpair
        obtain ⟨hfound, hnew⟩ := hempty
        obtain ⟨hfound', hnew'⟩ := hempty'
        refine ⟨?_, fun _ => ⟨fun pair hregion hsettled hunit => ⟨fun hmem => ?_, fun hmem => ?_⟩,
          fun _ _ hlost => hlost⟩⟩
        · rw [hfound, hfound']
          exact .nothing
        · exact mem_search fuel record name
            ((hbefore.same pair hregion hsettled hunit).1 ((hnew pair hmem).resolve_right hsettled))
        · exact mem_search fuel record name
            ((hbefore.same pair hregion hsettled hunit).2 ((hnew' pair hmem).resolve_right hsettled))
      have hkept : batch.Kept inside batch.Lost visited [] := by
        refine ⟨fun pair hregion hsettled hunit => ⟨fun hmem => ?_, fun hmem => ?_⟩,
          fun _ _ hlost => hlost⟩
        · exact absurd (hlost pair hmem hregion hunit) hsettled
        · cases hmem
      have hparallel := hmirrors.search (fun _ => rfl) hproper start
        (fun fuel before before' record name _ hpair _ _ => hempty fuel before before' record name hpair)
        (fuel + batch.bound + 1) record name hinside hname (by omega) hkept
      rw [search_enough hproper start (fuel + batch.bound + 1) (batch.bound + 1) [] record name hname
        (by have := hbound []; omega) (by have := hbound []; omega),
        search_enough hproper start (fuel + batch.bound + 1) fuel visited record name hname
        (by omega) hfuel] at hparallel
      have hresult : Echoes Eq (batch.search fuel visited record name).2
          (batch.originOf record name) := hparallel.result
      rw [horigin] at hresult ⊢
      generalize (batch.search fuel visited record name).2 = result at hresult ⊢
      cases hresult with
      | found heq => rw [heq]
    · rw [horigin] at hnone
      cases hnone
  · have hempty : CameUpEmpty _ visited (batch.search fuel visited record name) :=
      hclosed.dead.search fuel ⟨hpair, hinside⟩
    obtain ⟨hfound, hnew⟩ := hempty
    exact ⟨hfound.trans hpair.originOf.symm, fun _ => hnew⟩

/-- The second batch has the units of the first one in a region of records, but for the settled ones:
these export already what they are found to export in the first. -/
structure Cut (batch batch' : Batch) (region settled : Ref .record → Prop)
    (alike : Origin → Origin → Prop) : Prop where
  proper : batch.Proper
  proper' : batch'.Proper
  refl : ∀ origin, alike origin origin
  closed : batch.Closed region
  unit : ∀ record, region record → ¬ settled record →
    batch'.unitOf record = batch.unitOf record
  outside : ∀ record, region record → ¬ settled record → batch.unitOf record = none →
    batch'.outside record = batch.outside record
  within : ∀ record unit, settled record → batch.unitOf record = some unit →
    ∀ request ∈ unit.requests, ∀ target, request.target = some target →
      settled target ∨ batch.unitOf target = none
  answers : ∀ record, settled record → batch.Answers record
  exports : ∀ record, settled record → batch'.unitOf record = none ∧
    ∃ exports, batch'.outside record = .ok exports ∧ ∀ name,
      Echoes alike (batch.originOf record name) (.ok ((exports.get? name).map .slot))

namespace Cut

variable {inner : Ref .record → Prop}

theorem mirrors (h : Cut batch batch' region inner alike) :
    Mirrors batch batch' region fun pair => inner pair.1 where
  closed record _ unit hregion _ := h.closed record unit hregion
  unit record _ := h.unit record
  outside record _ := h.outside record

/-- Searches that come to a settled record go on alike. -/
theorem search_settled (h : Cut batch batch' region inner alike) {start : String} (fuel : Nat)
    (visited visited' : Visited) (record : Ref .record) (name : String) (hrecord : inner record)
    (hname : name ∈ batch.namesMet start) (hfuel : unmet (batch.pairsMet start) visited < fuel)
    (hkept : batch.Kept region (fun pair => inner pair.1) visited visited') :
    batch.Parallel region (fun pair => inner pair.1) alike (batch.search fuel visited record name)
      (batch'.search fuel visited' record name) := by
  obtain ⟨hunit, exports, hexports, hechoes⟩ := h.exports record hrecord
  have hclosed : batch.Closed fun record => inner record ∨ batch.unitOf record = none := by
    rintro record unit (hinner | hnone) hunit request hrequest target htarget
    · exact h.within record unit hinner hunit request hrequest target htarget
    · rw [hunit] at hnone
      cases hnone
  have hinner {pair : Ref .record × String} (hsome : (batch.unitOf pair.1).isSome)
      (hmem : inner pair.1 ∨ batch.unitOf pair.1 = none) : inner pair.1 :=
    hmem.resolve_right fun hnone => by rw [hnone] at hsome; cases hsome
  obtain ⟨hfound, hnew⟩ := (h.answers record hrecord).search h.proper hclosed (.inl hrecord)
    (fun pair hmem hin hsome => hkept.lost pair hmem (hinner hsome hin)) hname hfuel
  have hsearch : batch'.search fuel visited' record name =
      (visited', .ok ((exports.get? name).map .slot)) := by
    cases fuel with
    | zero => exact absurd hfuel (Nat.not_lt_zero _)
    | succ fuel => exact search_exported hunit hexports name fuel visited'
  rw [hsearch]
  refine ⟨hfound ▸ hechoes name, fun hnone => ?_⟩
  rw [hfound] at hnone
  refine ⟨fun pair hregion hsettled hsome => ⟨fun hmem => ?_, fun hmem => ?_⟩,
    fun pair hmem hsettled => ?_⟩
  · refine (hkept.same pair hregion hsettled hsome).1 ((hnew hnone pair hmem).resolve_right ?_)
    exact fun hlost => hsettled (hinner hsome hlost.2)
  · exact mem_search fuel record name ((hkept.same pair hregion hsettled hsome).2 hmem)
  · exact (hnew hnone pair hmem).elim (fun hold => hkept.lost pair hold hsettled) And.left

/-- Every record of the region is found to export the same in both batches. -/
theorem originOf (h : Cut batch batch' region inner alike) {record : Ref .record}
    (hrecord : region record) (name : String) :
    Echoes alike (batch.originOf record name) (batch'.originOf record name) := by
  have hbound := unmet_lt_bound batch name []
  have hbound' := unmet_lt_bound batch' name []
  have hkept : batch.Kept region (fun pair => inner pair.1) [] [] :=
    ⟨fun _ _ _ _ => Iff.rfl, fun _ hmem => nomatch hmem⟩
  have hparallel := h.mirrors.search h.refl h.proper name
    (fun fuel visited visited' record own _ => h.search_settled fuel visited visited' record own)
    (batch.bound + batch'.bound + 1) record name hrecord List.mem_cons_self (by omega) hkept
  rw [search_enough h.proper name (batch.bound + batch'.bound + 1) (batch.bound + 1) [] record name
    List.mem_cons_self (by omega) (by omega),
    search_enough h.proper' name (batch.bound + batch'.bound + 1) (batch'.bound + 1) [] record name
    List.mem_cons_self (by omega) (by omega)] at hparallel
  exact hparallel.result

end Cut

end Batch

end ModuleLoader
