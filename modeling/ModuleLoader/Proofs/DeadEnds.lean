import ModuleLoader.Proofs.Agreements
/-!
Names that lead nowhere. A set of pairs of a record and a name is dead if each of its pairs leads only
to pairs of the set and declares no origin. A search that begins in a dead set finds nothing, and a
search that begins elsewhere finds the same whether the set was looked at before or not.
-/

namespace ModuleLoader
set_option autoImplicit false

namespace LinkUnit

/-- A name that no binding exports has no explicit export. -/
theorem explicitStep_eq_none {unit : LinkUnit} {name : String} : ∀ {bindings : List Binding},
    (∀ binding ∈ bindings, binding.exportedName? ≠ some name) →
      unit.explicitStep name bindings = .ok none
  | [], _ => rfl
  | first :: rest, h => by
    have hfirst := h first List.mem_cons_self
    have hrest : unit.explicitStep name rest = .ok none :=
      explicitStep_eq_none fun binding hmem => h binding (List.mem_cons_of_mem _ hmem)
    cases first with
    | exportName exported => exact (if_neg fun heq => hfirst (congrArg some heq)).trans hrest
    | exportAs exported newName => exact (if_neg fun heq => hfirst (congrArg some heq)).trans hrest
    | exportFrom remote newName source =>
      exact (if_neg fun heq => hfirst (congrArg some heq)).trans hrest
    | exportAllAs newName source =>
      exact (if_neg fun heq => hfirst (congrArg some heq)).trans hrest
    | importName => exact hrest
    | importAs => exact hrest
    | importAll => exact hrest
    | exportAll => exact hrest

theorem exportStep_eq_none {unit : LinkUnit} {name : String} (h : name ∉ unit.explicitNames) :
    unit.exportStep name = .ok none :=
  explicitStep_eq_none fun binding hmem hname =>
    h (List.mem_filterMap.2 ⟨binding, hmem, hname⟩)

end LinkUnit

namespace Batch

variable {batch : Batch}

/-- Nothing is found at the pair, if nothing is found at the `pairs` that it leads to. -/
inductive DeadEnd (batch : Batch) (pairs : Ref .record × String → Prop) (record : Ref .record)
    (name : String) : Prop where
  | outside {exports : Table (Ref .slot)} : batch.unitOf record = none →
      batch.outside record = .ok exports → exports.get? name = none →
        DeadEnd batch pairs record name
  | forward {unit : LinkUnit} {target : Ref .record} {remote : String} :
      batch.unitOf record = some unit →
        unit.exportStep name = .ok (some (.forward target remote)) → pairs (target, remote) →
          DeadEnd batch pairs record name
  | reserved {unit : LinkUnit} : batch.unitOf record = some unit →
      unit.exportStep name = .ok none → name = unit.defaultExport →
        DeadEnd batch pairs record name
  | stars {unit : LinkUnit} {targets : List (Ref .record)} : batch.unitOf record = some unit →
      unit.exportStep name = .ok none → unit.starRecords = .ok targets →
        (∀ target ∈ targets, pairs (target, name)) → DeadEnd batch pairs record name

theorem DeadEnd.mono {pairs pairs' : Ref .record × String → Prop} {record : Ref .record}
    {name : String} (h : batch.DeadEnd pairs record name)
    (himp : ∀ pair, pairs pair → pairs' pair) : batch.DeadEnd pairs' record name := by
  cases h with
  | outside hunit hexports hnone => exact .outside hunit hexports hnone
  | forward hunit hstep hpairs => exact .forward hunit hstep (himp _ hpairs)
  | reserved hunit hstep hname => exact .reserved hunit hstep hname
  | stars hunit hstep htargets hpairs =>
    exact .stars hunit hstep htargets fun target hmem => himp _ (hpairs target hmem)

theorem DeadEnd.of_none {pairs : Ref .record × String → Prop} {record : Ref .record}
    {name : String} (h : batch.DeadEnd pairs record name) (hunit : batch.unitOf record = none) :
    ∃ exports, batch.outside record = .ok exports ∧ exports.get? name = none := by
  cases h with
  | outside _ hexports hnone => exact ⟨_, hexports, hnone⟩
  | forward hunit' => rw [hunit'] at hunit; cases hunit
  | reserved hunit' => rw [hunit'] at hunit; cases hunit
  | stars hunit' => rw [hunit'] at hunit; cases hunit

theorem DeadEnd.of_some {pairs : Ref .record × String → Prop} {record : Ref .record}
    {name : String} {unit : LinkUnit} (h : batch.DeadEnd pairs record name)
    (hunit : batch.unitOf record = some unit) :
    (∃ target remote, unit.exportStep name = .ok (some (.forward target remote)) ∧
      pairs (target, remote)) ∨
      unit.exportStep name = .ok none ∧ (name = unit.defaultExport ∨
        ∃ targets, unit.starRecords = .ok targets ∧ ∀ target ∈ targets, pairs (target, name)) := by
  cases h with
  | outside hunit' => rw [hunit'] at hunit; cases hunit
  | forward hunit' hstep hnext =>
    rw [hunit'] at hunit; cases hunit
    exact .inl ⟨_, _, hstep, hnext⟩
  | reserved hunit' hstep hname =>
    rw [hunit'] at hunit; cases hunit
    exact .inr ⟨hstep, .inl hname⟩
  | stars hunit' hstep htargets hnext =>
    rw [hunit'] at hunit; cases hunit
    exact .inr ⟨hstep, .inr ⟨_, htargets, hnext⟩⟩

/-- The pairs lead only to each other, and declare no origin. -/
def Dead (batch : Batch) (pairs : Ref .record × String → Prop) : Prop :=
  ∀ record name, pairs (record, name) → batch.DeadEnd pairs record name

/-- The pair lies in a dead set. -/
def Lost (batch : Batch) (pair : Ref .record × String) : Prop :=
  ∃ pairs, batch.Dead pairs ∧ pairs pair

/-- All dead sets together are dead. -/
theorem dead_lost : batch.Dead batch.Lost := by
  rintro record name ⟨pairs, hdead, hpair⟩
  exact (hdead record name hpair).mono fun other hother => ⟨pairs, hdead, hother⟩

/-- No origin is reached from a dead set. -/
theorem Dead.not_leads {pairs : Ref .record × String → Prop} (hdead : batch.Dead pairs)
    {record : Ref .record} {name : String} {origin : Origin}
    (h : batch.Leads record name origin) : ¬ pairs (record, name) := by
  intro hpairs
  induction h with
  | outside hunit hexports hslot =>
    obtain ⟨exports, hexports', hnone⟩ := (hdead _ _ hpairs).of_none hunit
    rw [hexports'] at hexports
    cases hexports
    rw [hnone] at hslot
    cases hslot
  | found hunit hstep =>
    rcases (hdead _ _ hpairs).of_some hunit with ⟨target, remote, hstep', -⟩ | ⟨hstep', -⟩ <;>
      rw [hstep'] at hstep <;> cases hstep
  | forward hunit hstep _ ih =>
    rcases (hdead _ _ hpairs).of_some hunit with ⟨target, remote, hstep', hnext⟩ | ⟨hstep', -⟩ <;>
      rw [hstep'] at hstep <;> cases hstep
    exact ih hnext
  | require hunit hstep _ ih =>
    rcases (hdead _ _ hpairs).of_some hunit with ⟨target, remote, hstep', -⟩ | ⟨hstep', -⟩ <;>
      rw [hstep'] at hstep <;> cases hstep
  | star hunit hstep hname htargets hmem _ ih =>
    rcases (hdead _ _ hpairs).of_some hunit with ⟨target, remote, hstep', -⟩ |
      ⟨-, hname' | ⟨targets, htargets', hnext⟩⟩
    · rw [hstep'] at hstep
      cases hstep
    · exact hname hname'
    · rw [htargets'] at htargets
      cases htargets
      exact ih (hnext _ hmem)

/-- A search found nothing and looked at nothing new but the given pairs. -/
def CameUpEmpty (pairs : Ref .record × String → Prop) (visited : Visited) (found : Found) : Prop :=
  found.2 = .ok none ∧ ∀ pair ∈ found.1, pair ∈ visited ∨ pairs pair

theorem firstFound_empty {search : Visited → Ref .record → Found}
    {pairs : Ref .record × String → Prop} :
    ∀ {records : List (Ref .record)} {visited : Visited},
      (∀ record ∈ records, ∀ visited, CameUpEmpty pairs visited (search visited record)) →
        CameUpEmpty pairs visited (firstFound search visited records)
  | [], _, _ => ⟨rfl, fun _ hmem => .inl hmem⟩
  | record :: rest, visited, hsearch => by
    obtain ⟨hnone, hfirst⟩ := hsearch record List.mem_cons_self visited
    have hothers : CameUpEmpty pairs (search visited record).1
        (firstFound search (search visited record).1 rest) :=
      firstFound_empty fun other hmem => hsearch other (List.mem_cons_of_mem _ hmem)
    rw [firstFound_none hnone]
    exact ⟨hothers.1, fun pair hmem => (hothers.2 pair hmem).elim (hfirst pair) .inr⟩

/-- A search that begins in a dead set stays there and finds nothing. -/
theorem Dead.search {pairs : Ref .record × String → Prop} (hdead : batch.Dead pairs) :
    ∀ (fuel : Nat) {visited : Visited} {record : Ref .record} {name : String},
      pairs (record, name) → CameUpEmpty pairs visited (batch.search fuel visited record name)
  | 0, _, _, _, _ => ⟨rfl, fun _ hmem => .inl hmem⟩
  | fuel + 1, visited, record, name, hpairs => by
    have hend := hdead record name hpairs
    -- What comes after the pair itself was added to the pairs that were looked at.
    have hadded {found : Found} (h : CameUpEmpty pairs ((record, name) :: visited) found) :
        CameUpEmpty pairs visited found := by
      refine ⟨h.1, fun pair hmem => ?_⟩
      rcases h.2 pair hmem with hmem | hpair
      · rcases List.mem_cons.1 hmem with rfl | hmem
        · exact .inr hpairs
        · exact .inl hmem
      · exact .inr hpair
    cases hunit : batch.unitOf record with
    | none =>
      obtain ⟨exports, hexports, hnone⟩ := hend.of_none hunit
      rw [search_exported hunit hexports, hnone]
      exact ⟨rfl, fun _ hmem => .inl hmem⟩
    | some unit =>
      by_cases hseen : (record, name) ∈ visited
      · rw [search_seen hunit hseen]
        exact ⟨rfl, fun _ hmem => .inl hmem⟩
      rcases hend.of_some hunit with ⟨target, remote, hstep, hnext⟩ | ⟨hstep, hrest⟩
      · have hfound : CameUpEmpty pairs ((record, name) :: visited) _ := hdead.search fuel hnext
        rw [search_new hunit hseen (.forward hstep)]
        exact hadded ⟨Quest.pursue_follow_nothing.2 ⟨rfl, hfound.1⟩, hfound.2⟩
      · by_cases hname : name = unit.defaultExport
        · rw [search_new hunit hseen (.reserved hstep hname)]
          exact hadded ⟨rfl, fun _ hmem => .inl hmem⟩
        · obtain ⟨targets, htargets, hnext⟩ := hrest.resolve_left hname
          rw [search_new hunit hseen (.stars hstep hname htargets)]
          exact hadded (firstFound_empty fun target hmem visited =>
            hdead.search fuel (hnext target (List.mem_reverse.1 hmem)))

/-- The pair was looked at, or is one of a record outside the batch that does not export it. -/
def Passed (batch : Batch) (visited : Visited) (pair : Ref .record × String) : Prop :=
  pair ∈ visited ∨ batch.unitOf pair.1 = none ∧
    ∃ exports, batch.outside pair.1 = .ok exports ∧ exports.get? pair.2 = none

theorem Passed.mono {visited visited' : Visited} {pair : Ref .record × String}
    (h : batch.Passed visited pair) (hsub : ∀ pair ∈ visited, pair ∈ visited') :
    batch.Passed visited' pair :=
  h.imp (hsub pair) id

/-- Every pair that was looked at since `visited` is a dead end. -/
def Exhausted (batch : Batch) (visited visited' : Visited) : Prop :=
  ∀ pair ∈ visited', pair ∈ visited ∨ batch.DeadEnd (batch.Passed visited') pair.1 pair.2

theorem Exhausted.trans {a b c : Visited} (hab : batch.Exhausted a b) (hbc : batch.Exhausted b c)
    (hsub : ∀ pair ∈ b, pair ∈ c) : batch.Exhausted a c := by
  intro pair hmem
  rcases hbc pair hmem with hmem | hend
  · rcases hab pair hmem with hmem | hend
    · exact .inl hmem
    · exact .inr (hend.mono fun _ hpassed => hpassed.mono hsub)
  · exact .inr hend

/-- What was looked at since a pair is a dead end, and so is the pair, which was passed. -/
theorem Exhausted.cons {record : Ref .record} {name : String} {visited visited' : Visited}
    (h : batch.Exhausted ((record, name) :: visited) visited')
    (hend : batch.DeadEnd (batch.Passed visited') record name) : batch.Exhausted visited visited' := by
  intro pair hpair
  rcases h pair hpair with hold | hdead
  · rcases List.mem_cons.1 hold with rfl | hold
    · exact .inr hend
    · exact .inl hold
  · exact .inr hdead

theorem firstFound_exhausts {search : Visited → Ref .record → Found} {name : String} {limit : Nat}
    {met : List (Ref .record × String)}
    (hgrows : ∀ visited record pair, pair ∈ visited → pair ∈ (search visited record).1)
    (hsearch : ∀ visited record, unmet met visited < limit → (search visited record).2 = .ok none →
      batch.Passed (search visited record).1 (record, name) ∧
        batch.Exhausted visited (search visited record).1) :
    ∀ {records : List (Ref .record)} {visited : Visited}, unmet met visited < limit →
      (firstFound search visited records).2 = .ok none →
        (∀ record ∈ records, batch.Passed (firstFound search visited records).1 (record, name)) ∧
          batch.Exhausted visited (firstFound search visited records).1
  | [], visited, _, _ => ⟨(fun _ hmem => nomatch hmem), fun _ hmem => .inl hmem⟩
  | record :: rest, visited, hlimit, h => by
    by_cases hnone : (search visited record).2 = .ok none
    · rw [firstFound_none hnone] at h ⊢
      obtain ⟨hpassed, hfirst⟩ := hsearch visited record hlimit hnone
      obtain ⟨hrecords, hrest⟩ := firstFound_exhausts hgrows hsearch
        (Nat.lt_of_le_of_lt (unmet_le (hgrows visited record)) hlimit) h
      have hsub (pair : Ref .record × String) (hmem : pair ∈ (search visited record).1) :
          pair ∈ (firstFound search (search visited record).1 rest).1 :=
        mem_firstFound (fun visited record => hgrows visited record pair) hmem
      refine ⟨fun other hmem => ?_, hfirst.trans hrest hsub⟩
      rcases List.mem_cons.1 hmem with rfl | hmem
      · exact hpassed.mono hsub
      · exact hrecords other hmem
    · rw [firstFound_stop hnone] at h
      exact absurd h hnone

/-- A search with enough steps that finds nothing has looked at everything it could come to. -/
theorem search_exhausts (hproper : batch.Proper) (start : String) :
    ∀ (fuel : Nat) {visited : Visited} (record : Ref .record) (name : String),
      name ∈ batch.namesMet start → unmet (batch.pairsMet start) visited < fuel →
        (batch.search fuel visited record name).2 = .ok none →
          batch.Passed (batch.search fuel visited record name).1 (record, name) ∧
            batch.Exhausted visited (batch.search fuel visited record name).1
  | 0, _, _, _, _, hfuel, _ => absurd hfuel (Nat.not_lt_zero _)
  | fuel + 1, visited, record, name, hname, hfuel, h => by
    cases hunit : batch.unitOf record with
    | none =>
      rw [search_outside hunit] at h ⊢
      obtain ⟨exports, hexports, hnone⟩ := LinkUnit.map_ok h
      exact ⟨.inr ⟨hunit, exports, hexports, Option.map_eq_none_iff.1 hnone⟩, fun _ hmem => .inl hmem⟩
    | some unit =>
      by_cases hseen : (record, name) ∈ visited
      · rw [search_seen hunit hseen]
        exact ⟨.inl hseen, fun _ hmem => .inl hmem⟩
      obtain ⟨quest, hposes⟩ := exists_poses unit name
      rw [search_new hunit hseen hposes] at h ⊢
      have hrest := unmet_next hproper hunit hname hseen hfuel
      have hself : (record, name) ∈
          (quest.pursue (batch.search fuel) ((record, name) :: visited) name).1 :=
        mem_pursue (mem_search fuel) quest name List.mem_cons_self
      -- The pair itself is a dead end, as what it leads to was passed.
      suffices hends : batch.DeadEnd (batch.Passed _) record name ∧
          batch.Exhausted ((record, name) :: visited) _ from ⟨.inl hself, hends.2.cons hends.1⟩
      cases hposes with
      | failed | found | starless => cases h
      | forward hstep =>
        obtain ⟨hpassed, hexhausted⟩ := search_exhausts hproper start fuel _ _
          (namesMet_of_onward hproper hunit (.forward hstep) hname (List.mem_singleton_self _)) hrest
          (Quest.pursue_follow_nothing.1 h).2
        exact ⟨.forward hunit hstep hpassed, hexhausted⟩
      | require => cases (Quest.pursue_follow_nothing.1 h).1
      | reserved hstep hreserved => exact ⟨.reserved hunit hstep hreserved, fun _ hmem => .inl hmem⟩
      | stars hstep _ htargets =>
        obtain ⟨hpassed, hexhausted⟩ := firstFound_exhausts
          (fun before target pair => mem_search fuel target name)
          (fun before target hlimit => search_exhausts hproper start fuel target name hname hlimit) hrest h
        exact ⟨.stars hunit hstep htargets fun target hmem => hpassed target (List.mem_reverse.2 hmem),
          hexhausted⟩

/-- A name that is not found on a record is lost there. -/
theorem lost_of_originOf (hproper : batch.Proper) {record : Ref .record} {name : String}
    (h : batch.originOf record name = .ok none) : batch.Lost (record, name) := by
  obtain ⟨hpassed, hexhausted⟩ := search_exhausts hproper name _ record name List.mem_cons_self
    (Nat.lt_succ_of_lt (unmet_lt_bound batch name [])) h
  refine ⟨batch.Passed _, fun other own hpair => ?_, hpassed⟩
  rcases hpair with hmem | ⟨hunit, exports, hexports, hnone⟩
  · exact (hexhausted _ hmem).resolve_left List.not_mem_nil
  · exact .outside hunit hexports hnone

/-- A name that a record cannot export is lost there. -/
theorem lost_of_exportableNames (hproper : batch.Proper) {unit : LinkUnit}
    (hmem : unit ∈ batch.units) {names : List String} (h : batch.exportableNames unit = .ok names)
    {name : String} (hname : name ∉ names) : batch.Lost (unit.record, name) := by
  have hunit := hproper.unitOf unit hmem
  obtain ⟨hexplicit, visited, hcovers, hvisited⟩ := exportableNames_covers hproper hmem h
  by_cases hreserved : name = unit.defaultExport
  · refine ⟨(· = (unit.record, name)), fun record own hpair => ?_, rfl⟩
    cases hpair
    exact .reserved hunit
      (LinkUnit.exportStep_eq_none fun hmem => hname (hexplicit name hmem)) hreserved
  · refine ⟨fun pair => pair.2 = name ∧ (pair.1 ∈ visited ∨
      batch.Taken unit.defaultExport names pair.1), fun record own hpair => ?_, rfl, .inl hvisited⟩
    obtain ⟨rfl, hseen | ⟨hnone, exports, hexports, hnames⟩⟩ := hpair
    · obtain ⟨other, hother, hexplicit, targets, htargets, hstars⟩ := hcovers record hseen
      refine .stars hother (LinkUnit.exportStep_eq_none fun hmem =>
        hname (hexplicit own hmem hreserved)) htargets fun target hmem => ⟨rfl, ?_⟩
      rcases hstars target hmem with hseen | hpending | htaken
      · exact .inl hseen
      · cases hpending
      · exact .inr htaken
    · refine .outside hnone hexports ?_
      cases hslot : exports.get? own with
      | none => rfl
      | some slot => exact absurd (hnames own (Table.mem_names hslot) hreserved) hname

/-- Two lists of pairs that were looked at are the same but for the given pairs. -/
def AlikeOff (pairs : Ref .record × String → Prop) (visited visited' : Visited) : Prop :=
  ∀ pair, ¬ pairs pair → (pair ∈ visited ↔ pair ∈ visited')

theorem AlikeOff.cons {pairs : Ref .record × String → Prop} {visited visited' : Visited}
    (h : AlikeOff pairs visited visited') (first : Ref .record × String) :
    AlikeOff pairs (first :: visited) (first :: visited') := by
  intro pair hpair
  rw [List.mem_cons, List.mem_cons, h pair hpair]

/-- Two searches found the same, and looked at the same but for the given pairs. -/
def AgreeOff (pairs : Ref .record × String → Prop) (found found' : Found) : Prop :=
  found.2 = found'.2 ∧ AlikeOff pairs found.1 found'.1

/-- Searches that agree on each record, as long as `allowed` pairs are looked at, agree on several. -/
theorem firstFound_agrees {pairs : Ref .record × String → Prop} {allowed : Visited → Prop}
    {search : Visited → Ref .record → Found}
    (hsearch : ∀ visited visited' record, AlikeOff pairs visited visited' →
      allowed (search visited record).1 →
        AgreeOff pairs (search visited record) (search visited' record))
    (hallowed : ∀ records visited, allowed (firstFound search visited records).1 →
      allowed visited) :
    ∀ {records : List (Ref .record)} {visited visited' : Visited},
      AlikeOff pairs visited visited' → allowed (firstFound search visited records).1 →
        AgreeOff pairs (firstFound search visited records) (firstFound search visited' records)
  | [], _, _, halike, _ => ⟨rfl, halike⟩
  | record :: rest, visited, visited', halike, hfinal => by
    have hagree := hsearch visited visited' record halike
    by_cases hnone : (search visited record).2 = .ok none
    · rw [firstFound_none hnone] at hfinal ⊢
      obtain ⟨hsame, halike'⟩ := hagree (hallowed rest _ hfinal)
      rw [firstFound_none (hsame.symm.trans hnone)]
      exact firstFound_agrees hsearch hallowed halike' hfinal
    · rw [firstFound_stop hnone] at hfinal ⊢
      obtain ⟨hsame, halike'⟩ := hagree hfinal
      rw [firstFound_stop fun hnone' => hnone (hsame.trans hnone')]
      exact ⟨hsame, halike'⟩

/-- Searches that agree, as long as `allowed` pairs are looked at, agree on what is left to do. -/
theorem AgreeOff.pursue {pairs : Ref .record × String → Prop} {allowed : Visited → Prop}
    {search : Visited → Ref .record → String → Found}
    (hgrows : ∀ {visited pair} record name, pair ∈ visited → pair ∈ (search visited record name).1)
    (hallowed : ∀ visited visited' : Visited, (∀ pair ∈ visited, pair ∈ visited') →
      allowed visited' → allowed visited)
    (hsearch : ∀ {visited visited'} record name, AlikeOff pairs visited visited' →
      allowed (search visited record name).1 →
        AgreeOff pairs (search visited record name) (search visited' record name))
    {visited visited' : Visited} (quest : Quest) (name : String) (halike : AlikeOff pairs visited visited')
    (hfinal : allowed (quest.pursue search visited name).1) :
    AgreeOff pairs (quest.pursue search visited name) (quest.pursue search visited' name) := by
  cases quest with
  | answer result => exact ⟨rfl, halike⟩
  | follow target remote missing =>
    obtain ⟨hsame, halike'⟩ := hsearch target remote halike hfinal
    exact ⟨congrArg (demand missing) hsame, halike'⟩
  | spread targets =>
    refine firstFound_agrees (fun before before' target => hsearch target name)
      (fun records before => hallowed _ _ fun pair hmem => ?_) halike hfinal
    exact mem_firstFound (fun before target => hgrows target name) hmem

/-- Two searches agree if they looked at the same before but for some pairs, and searches that begin
at one of these agree. -/
theorem search_agrees {pairs : Ref .record × String → Prop} {allowed : Visited → Prop}
    (hallowed : ∀ visited visited' : Visited, (∀ pair ∈ visited, pair ∈ visited') →
      allowed visited' → allowed visited)
    (hpairs : ∀ fuel visited visited' record name, pairs (record, name) →
      AlikeOff pairs visited visited' → allowed (batch.search fuel visited record name).1 →
        AgreeOff pairs (batch.search fuel visited record name)
          (batch.search fuel visited' record name)) :
    ∀ (fuel : Nat) {visited visited' : Visited} (record : Ref .record) (name : String),
      AlikeOff pairs visited visited' → allowed (batch.search fuel visited record name).1 →
        AgreeOff pairs (batch.search fuel visited record name)
          (batch.search fuel visited' record name)
  | 0, _, _, _, _, halike, _ => ⟨rfl, halike⟩
  | fuel + 1, visited, visited', record, name, halike, hfinal => by
    by_cases hpair : pairs (record, name)
    · exact hpairs (fuel + 1) visited visited' record name hpair halike hfinal
    cases hunit : batch.unitOf record with
    | none =>
      rw [search_outside hunit, search_outside hunit]
      exact ⟨rfl, halike⟩
    | some unit =>
      have hboth : (record, name) ∈ visited ↔ (record, name) ∈ visited' := halike _ hpair
      by_cases hseen : (record, name) ∈ visited
      · rw [search_seen hunit hseen, search_seen hunit (hboth.1 hseen)]
        exact ⟨rfl, halike⟩
      · obtain ⟨quest, hposes⟩ := exists_poses unit name
        rw [search_new hunit hseen hposes] at hfinal ⊢
        rw [search_new hunit (mt hboth.2 hseen) hposes]
        exact AgreeOff.pursue (mem_search fuel) hallowed (search_agrees hallowed hpairs fuel) quest name
          (halike.cons (record, name)) hfinal

/-- A search finds the same whether a dead set was looked at before or not. -/
theorem Dead.search_agrees {pairs : Ref .record × String → Prop} (hdead : batch.Dead pairs)
    (fuel : Nat) {visited visited' : Visited} (record : Ref .record) (name : String)
    (halike : AlikeOff pairs visited visited') :
    AgreeOff pairs (batch.search fuel visited record name)
      (batch.search fuel visited' record name) := by
  have hbegin (fuel : Nat) (before before' : Visited) (record : Ref .record) (name : String)
      (hpair : pairs (record, name)) (halike : AlikeOff pairs before before') (_ : True) :
      AgreeOff pairs (batch.search fuel before record name)
        (batch.search fuel before' record name) := by
    have hfound : CameUpEmpty pairs before _ := hdead.search fuel hpair
    have hfound' : CameUpEmpty pairs before' _ := hdead.search fuel hpair
    refine ⟨hfound.1.trans hfound'.1.symm, fun other hother => ⟨fun hmem => ?_, fun hmem => ?_⟩⟩
    · have hold := (hfound.2 other hmem).resolve_right hother
      exact mem_search fuel record name ((halike other hother).1 hold)
    · have hold := (hfound'.2 other hmem).resolve_right hother
      exact mem_search fuel record name ((halike other hother).2 hold)
  exact Batch.search_agrees (fun _ _ _ _ => trivial) hbegin fuel record name halike trivial

/-- A search has looked at the pair that it began with. -/
theorem mem_search_self (fuel : Nat) {visited : Visited} {record : Ref .record} {name : String}
    {unit : LinkUnit} (hunit : batch.unitOf record = some unit) :
    (record, name) ∈ (batch.search (fuel + 1) visited record name).1 := by
  by_cases hseen : (record, name) ∈ visited
  · exact mem_search (fuel + 1) record name hseen
  · obtain ⟨quest, hposes⟩ := exists_poses unit name
    rw [search_new hunit hseen hposes]
    exact mem_pursue (mem_search fuel) quest name List.mem_cons_self

/-- A search finds the same whether a pair that it does not look at was looked at before or not. -/
theorem search_without {pair : Ref .record × String} (fuel : Nat) {visited visited' : Visited}
    (record : Ref .record) (name : String) (halike : AlikeOff (· = pair) visited visited')
    (hpair : pair ∉ (batch.search fuel visited record name).1) :
    AgreeOff (· = pair) (batch.search fuel visited record name)
      (batch.search fuel visited' record name) := by
  have hbegin (fuel : Nat) (before before' : Visited) (record : Ref .record) (name : String)
      (hsame : (record, name) = pair) (halike : AlikeOff (· = pair) before before')
      (hpair : pair ∉ (batch.search fuel before record name).1) :
      AgreeOff (· = pair) (batch.search fuel before record name)
        (batch.search fuel before' record name) := by
    subst hsame
    cases fuel with
    | zero => exact ⟨rfl, halike⟩
    | succ fuel =>
      cases hunit : batch.unitOf record with
      | none =>
        rw [search_outside hunit, search_outside hunit]
        exact ⟨rfl, halike⟩
      | some unit => exact absurd (mem_search_self fuel hunit) hpair
  have hallowed (before after : Visited) (hsub : ∀ other ∈ before, other ∈ after)
      (hafter : pair ∉ after) : pair ∉ before :=
    fun hmem => hafter (hsub pair hmem)
  exact Batch.search_agrees hallowed hbegin fuel record name halike hpair

/-- A record that answers exports a name, or the name is lost there. -/
theorem Answers.exports_or_lost (hproper : batch.Proper) {record : Ref .record}
    (h : batch.Answers record) (name : String) :
    (∃ origin, batch.originOf record name = .ok (some origin)) ∨ batch.Lost (record, name) := by
  unfold Answers at h
  split at h
  · rename_i unit hunit
    obtain ⟨wiring, hwire⟩ := h
    obtain ⟨names, hnames, hexports⟩ := (wired_of_wire hwire).exports
    obtain ⟨hmem, rfl⟩ := hproper.unit record unit hunit
    by_cases hname : name ∈ names
    · obtain ⟨found, hfound, -⟩ := (wireExports_exports hexports).2 name hname
      cases found with
      | none => exact .inr (lost_of_originOf hproper hfound)
      | some origin => exact .inl ⟨origin, hfound⟩
    · exact .inr (lost_of_exportableNames hproper hmem hnames hname)
  · rename_i hunit
    obtain ⟨exports, hexports⟩ := h
    cases hslot : exports.get? name with
    | some slot =>
      refine .inl ⟨.slot slot, ?_⟩
      unfold Batch.originOf
      rw [search_exported hunit hexports, hslot]
      rfl
    | none =>
      refine .inr ⟨(· = (record, name)), fun other own hpair => ?_, rfl⟩
      cases hpair
      exact .outside hunit hexports hslot

theorem Lost.originOf {record : Ref .record} {name : String} (h : batch.Lost (record, name)) :
    batch.originOf record name = .ok none :=
  (dead_lost.search (batch.bound + 1) h).1

end Batch

end ModuleLoader
