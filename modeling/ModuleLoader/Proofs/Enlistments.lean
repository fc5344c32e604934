import ModuleLoader.Proofs.DriverPlans
/-!
What scheduling does to a host: new verdicts, one driver, and one completion for each group, which its
members share from now on. Nothing that was there changes, but that the members got their completion.
-/

namespace ModuleLoader
set_option autoImplicit false

theorem Arena.Extends.none {k : Noun} {α : Type} {a b : Arena k α} (h : a.Extends b) {ref : Ref k}
    (hnone : b.get? ref = none) : a.get? ref = none := by
  cases ha : a.get? ref with
  | none => rfl
  | some value => cases hnone.symm.trans (h ref value ha)

namespace Act

/-- New verdicts, none of them announced. -/
structure Posts (host host' : Host) (groups : List (List (Ref .record)))
    (pairs : List (List (Ref .record) × Ref .verdict)) : Prop where
  rest : host' = { host with verdicts := host'.verdicts }
  groups : pairs.map Prod.fst = groups
  kept : host.verdicts.Extends host'.verdicts
  fresh : ∀ pair ∈ pairs, host.verdicts.get? pair.2 = none ∧
    host'.verdicts.get? pair.2 = some ⟨none, none⟩
  nodup : (pairs.map Prod.snd).Nodup

theorem newVerdicts_posts : ∀ (groups : List (List (Ref .record))) (host : Host),
    After host (newVerdicts groups) fun pairs host' => Posts host host' groups pairs
  | [], host => ⟨rfl, rfl, .refl _, (fun _ hmem => nomatch hmem), List.nodup_nil⟩
  | members :: rest, host => by
    have hkept := Arena.Extends.push host.verdicts ⟨none, none⟩
    have hnew : (host.verdicts.push ⟨none, none⟩).get? host.verdicts.next = some ⟨none, none⟩ := by
      rw [Arena.get?_push, if_pos rfl]
    unfold newVerdicts
    rw [after_bind, after_get]
    dsimp only
    rw [after_bind, after_modify, after_bind]
    refine (newVerdicts_posts rest _).mono fun pairs host' h => ?_
    refine ⟨h.rest, congrArg (members :: ·) h.groups, hkept.trans h.kept, fun pair hmem => ?_, ?_⟩
    · rcases List.mem_cons.1 hmem with rfl | hmem
      · exact ⟨Arena.get?_next _, h.kept _ _ hnew⟩
      · obtain ⟨hnone, hsome⟩ := h.fresh pair hmem
        exact ⟨hkept.none hnone, hsome⟩
    · refine List.nodup_cons.2 ⟨fun hmem => ?_, h.nodup⟩
      obtain ⟨pair, hpair, heq⟩ := List.mem_map.1 hmem
      have hnone := (h.fresh pair hpair).1
      rw [heq] at hnone
      cases hnew.symm.trans hnone

/-- The members of groups got shared completions, each under the verdict of its group. -/
structure Shares (driver : Ref .driver) (pairs : List (List (Ref .record) × Ref .verdict))
    (host host' : Host) : Prop where
  rest : host' = { host with
    records := host'.records
    readies := host'.readies
    board := host'.board }
  kept : host.readies.Extends host'.readies
  others : ∀ ref, ref ∉ (pairs.map Prod.fst).flatten →
    host'.records.get? ref = host.records.get? ref
  shared : ∀ members verdict, (members, verdict) ∈ pairs → ∃ ready bell first,
    host.readies.get? ready = none ∧
      host'.readies.get? ready = some ⟨bell, .idle ⟨some ⟨driver, none⟩, verdict, first⟩⟩ ∧
        ∀ ref ∈ members, ∃ record, host.records.get? ref = some record ∧
          host'.records.get? ref = some { record with ready := some ready }
  new : ∀ ready shared, host'.readies.get? ready = some shared → host.readies.get? ready = none →
    ∃ members verdict bell first, (members, verdict) ∈ pairs ∧
      shared = ⟨bell, .idle ⟨some ⟨driver, none⟩, verdict, first⟩⟩ ∧
        ∃ ref ∈ members, (host'.record ref).ready = some ready

theorem Shares.nil (driver : Ref .driver) (host : Host) : Shares driver [] host host where
  rest := rfl
  kept := .refl _
  others _ _ := rfl
  shared _ _ hmem := nomatch hmem
  new _ _ hsome hnone := nomatch hnone.symm.trans hsome

/-- One group after another gets its completion. -/
theorem Shares.cons {driver : Ref .driver} {members : List (Ref .record)} {verdict : Ref .verdict}
    {rest : List (List (Ref .record) × Ref .verdict)} {a b c : Host}
    (hfirst : Shares driver [(members, verdict)] a b) (hrest : Shares driver rest b c)
    (hdisjoint : ∀ ref ∈ members, ref ∉ (rest.map Prod.fst).flatten) :
    Shares driver ((members, verdict) :: rest) a c := by
  have hout (ref : Ref .record) (hmem : ref ∉ members) : b.records.get? ref = a.records.get? ref := by
    refine hfirst.others ref ?_
    rw [List.map_singleton, List.flatten_singleton]
    exact hmem
  have hin (ref : Ref .record) (hmem : ref ∈ members) : c.records.get? ref = b.records.get? ref :=
    hrest.others ref (hdisjoint ref hmem)
  refine ⟨?_, hfirst.kept.trans hrest.kept, fun ref hmem => ?_, fun group place hmem => ?_,
    fun ready shared hsome hnone => ?_⟩
  · rw [hrest.rest, hfirst.rest]
  · rw [List.map_cons, List.flatten_cons, List.mem_append, not_or] at hmem
    rw [hrest.others ref hmem.2, hout ref hmem.1]
  · rcases List.mem_cons.1 hmem with heq | hmem
    · obtain ⟨rfl, rfl⟩ := Prod.mk.inj heq
      obtain ⟨ready, bell, first, hnone, hsome, hrecords⟩ :=
        hfirst.shared group place (List.mem_singleton_self _)
      refine ⟨ready, bell, first, hnone, hrest.kept _ _ hsome, fun ref href => ?_⟩
      rw [hin ref href]
      exact hrecords ref href
    · obtain ⟨ready, bell, first, hnone, hsome, hrecords⟩ := hrest.shared group place hmem
      refine ⟨ready, bell, first, hfirst.kept.none hnone, hsome, fun ref href => ?_⟩
      rw [← hout ref fun hmember => hdisjoint ref hmember
        (List.mem_flatten_of_mem (List.mem_map_of_mem (f := Prod.fst) hmem) href)]
      exact hrecords ref href
  · cases hmiddle : b.readies.get? ready with
    | none =>
      obtain ⟨group, place, bell, first, hmem, heq, href⟩ := hrest.new ready shared hsome hmiddle
      exact ⟨group, place, bell, first, List.mem_cons_of_mem _ hmem, heq, href⟩
    | some found =>
      obtain rfl := Option.some.inj (hsome.symm.trans (hrest.kept _ _ hmiddle))
      obtain ⟨group, place, bell, first, hmem, heq, ref, href, hready⟩ :=
        hfirst.new ready shared hmiddle hnone
      refine ⟨group, place, bell, first, List.mem_cons.2 (.inl (List.mem_singleton.1 hmem)), heq, ref,
        href, ?_⟩
      obtain ⟨rfl, -⟩ := Prod.mk.inj (List.mem_singleton.1 hmem)
      unfold Host.record at hready ⊢
      rw [hin ref href]
      exact hready

/-- Records get a completion one after another. -/
theorem forM_ready (ready : Ref .ready) : ∀ (members : List (Ref .record)) (host : Host),
    After host (members.forM fun member => changeRecord member fun record =>
      { record with ready := some ready }) fun _ host' =>
        host' = { host with records := host'.records } ∧
          (∀ ref ∉ members, host'.records.get? ref = host.records.get? ref) ∧
            ∀ ref ∈ members, host'.records.get? ref =
              (host.records.get? ref).map fun record => { record with ready := some ready }
  | [], host => ⟨rfl, fun _ _ => rfl, fun _ hmem => nomatch hmem⟩
  | member :: rest, host => by
    change After host (changeRecord member (fun record => { record with ready := some ready }) >>= fun _ =>
      rest.forM fun member => changeRecord member fun record => { record with ready := some ready }) _
    rw [after_bind]
    refine (after_changeRecord_same ?_).2 ?_
    · exact fun _ => rfl
    refine (forM_ready ready rest _).mono fun _ host' ⟨hrest, hothers, hmembers⟩ => ?_
    refine ⟨by rw [hrest], fun ref hmem => ?_, fun ref hmem => ?_⟩
    · rw [hothers ref fun hmem' => hmem (List.mem_cons_of_mem _ hmem')]
      change (host.records.modify member _).get? ref = _
      rw [Arena.get?_modify, if_neg (fun heq : member = ref => hmem (heq ▸ List.mem_cons_self))]
    · have hfirst : (host.records.modify member fun record => { record with ready := some ready }).get?
          ref = if member = ref then (host.records.get? ref).map fun record =>
            { record with ready := some ready } else host.records.get? ref :=
        Arena.get?_modify _ _ _ _
      by_cases hin : ref ∈ rest
      · rw [hmembers ref hin]
        change Option.map _ ((host.records.modify member _).get? ref) = _
        rw [hfirst]
        split
        · rw [Option.map_map]
          rfl
        · rfl
      · rw [hothers ref hin]
        change (host.records.modify member _).get? ref = _
        rw [hfirst, if_pos ((List.mem_cons.1 hmem).resolve_right hin).symm]

theorem newCompletion_shares (driver : Ref .driver) {members : List (Ref .record)}
    (hnonempty : members ≠ []) (verdict : Ref .verdict) {host : Host}
    (hexist : ∀ ref ∈ members, (host.records.get? ref).isSome) :
    After host (newCompletion driver members verdict) fun _ host' =>
      Shares driver [(members, verdict)] host host' := by
  unfold newCompletion
  cases members with
  | nil => exact absurd rfl hnonempty
  | cons first rest =>
    dsimp only
    have hbell : After host newBell fun _ belled =>
        belled = { host with board := belled.board } := rfl
    rw [after_bind]
    refine hbell.mono fun bell belled hbelled => ?_
    rw [after_bind, after_get, after_bind, after_modify]
    refine (forM_ready belled.readies.next (first :: rest) _).mono
      fun _ host' ⟨hrest, hothers, hmembers⟩ => ?_
    have hrecords : belled.records = host.records := by rw [hbelled]
    have hreadies : belled.readies = host.readies := by rw [hbelled]
    have hpushed : host'.readies = host.readies.push
        ⟨bell, .idle ⟨some ⟨driver, none⟩, verdict, first⟩⟩ := by
      rw [hrest, ← hreadies]
    have hget (ref : Ref .record) (href : ref ∈ first :: rest) : ∃ record,
        host.records.get? ref = some record ∧
          host'.records.get? ref = some { record with ready := some belled.readies.next } := by
      obtain ⟨record, hrecord⟩ := Option.isSome_iff_exists.1 (hexist ref href)
      refine ⟨record, hrecord, (hmembers ref href).trans ?_⟩
      change (belled.records.get? ref).map _ = _
      rw [hrecords, hrecord]
      rfl
    refine ⟨?_, hpushed ▸ .push _ _, fun ref hmem => ?_, fun group place hmem => ?_,
      fun ready shared hsome hnone => ?_⟩
    · rw [hrest, hbelled]
    · rw [List.map_singleton, List.flatten_singleton] at hmem
      rw [hothers ref hmem, ← hrecords]
    · obtain ⟨rfl, rfl⟩ := Prod.mk.inj (List.mem_singleton.1 hmem)
      refine ⟨belled.readies.next, bell, first, ?_, ?_, hget⟩
      · rw [hreadies]
        exact Arena.get?_next _
      · rw [hpushed, hreadies, Arena.get?_push, if_pos rfl]
    · rw [hpushed] at hsome
      obtain ⟨rfl, rfl⟩ := Arena.get?_push_new hnone hsome
      refine ⟨first :: rest, verdict, bell, first, List.mem_singleton_self _, rfl, first,
        List.mem_cons_self, ?_⟩
      obtain ⟨record, -, hrecord⟩ := hget first List.mem_cons_self
      unfold Host.record
      rw [hrecord, hreadies]
      rfl

theorem newCompletions_shares (driver : Ref .driver) :
    ∀ (pairs : List (List (Ref .record) × Ref .verdict)) {host : Host},
      (pairs.map Prod.fst).flatten.Nodup → (∀ members ∈ pairs.map Prod.fst, members ≠ []) →
        (∀ ref ∈ (pairs.map Prod.fst).flatten, (host.records.get? ref).isSome) →
          After host (newCompletions driver pairs) fun _ host' => Shares driver pairs host host'
  | [], host, _, _, _ => .nil driver host
  | (members, verdict) :: rest, host, hnodup, hnonempty, hexist => by
    rw [List.map_cons, List.flatten_cons] at hnodup hexist
    obtain ⟨-, hrest, hdisjoint⟩ := List.nodup_append.1 hnodup
    unfold newCompletions
    rw [after_bind]
    refine (newCompletion_shares driver (hnonempty members List.mem_cons_self) verdict
      fun ref hmem => hexist ref (List.mem_append_left _ hmem)).mono fun _ middle hfirst => ?_
    have hout (ref : Ref .record) (hmem : ref ∈ members) : ref ∉ (rest.map Prod.fst).flatten :=
      fun hmem' => hdisjoint ref hmem ref hmem' rfl
    refine (newCompletions_shares driver rest hrest
      (fun group hmem => hnonempty group (List.mem_cons_of_mem _ hmem)) fun ref hmem => ?_).mono
        fun _ host' hlast => hfirst.cons hlast hout
    rw [hfirst.others ref]
    · exact hexist ref (List.mem_append_right _ hmem)
    · rw [List.map_singleton, List.flatten_singleton]
      exact fun hmember => hout ref hmember hmem

/-- A driver was installed for groups of records: verdicts were posted, and completions shared. -/
structure Enlists (host host' : Host) (groups : List (List (Ref .record)))
    (pairs : List (List (Ref .record) × Ref .verdict)) (driver : Ref .driver) (bell : Ref .bell)
    (work : DriverWork) : Prop where
  rest : host' = { host with
    records := host'.records
    readies := host'.readies
    drivers := host'.drivers
    verdicts := host'.verdicts
    board := host'.board }
  posts : Posts host { host with verdicts := host'.verdicts } groups pairs
  shares : Shares driver pairs host
    { host with records := host'.records, readies := host'.readies, board := host'.board }
  afresh : Shelf.drivers.get? host driver = none
  drivers : ∀ other, Shelf.drivers.get? host' other =
    if other = driver then some ⟨bell, .idle work⟩ else Shelf.drivers.get? host other
  started : work.started = false
  members : work.members = []
  planned : work.components = host.componentsOf (host.ownerIn groups) 0 [] pairs

theorem componentsOf_congr {host host' : Host} (hrecords : host'.records = host.records)
    (hcompartments : host'.compartments = host.compartments) (owner : Ref .record → Option Nat) :
    ∀ (pairs : List (List (Ref .record) × Ref .verdict)) (index : Nat) (components : List Component),
      host'.componentsOf owner index components pairs = host.componentsOf owner index components pairs
  | [], _, _ => rfl
  | (members, verdict) :: rest, index, components => by
    have hdependencies : (fun member => host'.dependencies (host'.record member)) =
        fun member => host.dependencies (host.record member) := by
      unfold Host.record Host.dependencies Host.lookup? Host.entryAt? Host.compartment
      rw [hrecords, hcompartments]
    have hcompletion : host'.completion = host.completion := by
      funext ref
      unfold Host.completion Host.record
      rw [hrecords]
    unfold Host.componentsOf
    rw [hdependencies, hcompletion]
    exact componentsOf_congr hrecords hcompartments owner rest _ _

/-- The driver for some groups under their verdicts, before it has started. -/
def plannedDriver (host : Host) (groups : List (List (Ref .record)))
    (pairs : List (List (Ref .record) × Ref .verdict)) (pool : Ref .pool) : DriverWork :=
  { started := false, components := host.componentsOf (host.ownerIn groups) 0 [] pairs, pool, members := []
    nextIndex := 0 }

/-- The host in which a new driver shares completions: verdicts were posted, and the driver is there. -/
def planHost (host : Host) (verdicts : Arena .verdict Verdict) (board : Board) (bell : Ref .bell)
    (work : DriverWork) : Host :=
  { host with
    verdicts, board
    drivers := host.drivers.push ⟨⟨bell, .idle work⟩, work.components.length⟩ }

/-- Installing a driver comes down to sharing the completions of what was planned. -/
theorem startDriver_plans {host : Host} {groups : List (List (Ref .record))} {post : Unit → Host → Prop}
    (h : ∀ pairs posted pool board bell, Posts host posted groups pairs →
      After (planHost host posted.verdicts board bell (plannedDriver host groups pairs pool))
        (newCompletions host.drivers.next pairs) post) : After host (startDriver groups) post := by
  unfold startDriver
  rw [after_bind]
  refine (newVerdicts_posts groups host).mono fun pairs posted hposts => ?_
  have hrecords : posted.records = host.records := by rw [hposts.rest]
  have hcompartments : posted.compartments = host.compartments := by rw [hposts.rest]
  have howner : posted.ownerIn groups = host.ownerIn groups := by
    unfold Host.ownerIn
    rw [hrecords]
  have hpool : After posted newPool fun _ pooled => pooled = { posted with board := pooled.board } := rfl
  rw [after_bind, after_get, after_bind]
  refine hpool.mono fun pool pooled hpooled => ?_
  have hbell : After pooled newBell fun _ belled => belled = { pooled with board := belled.board } := rfl
  rw [after_bind]
  refine hbell.mono fun bell belled hbelled => ?_
  rw [after_bind, after_get, after_bind, after_modify, howner,
    componentsOf_congr hrecords hcompartments]
  obtain ⟨board, rfl⟩ : ∃ board, belled = { host with verdicts := posted.verdicts, board } :=
    ⟨belled.board, by rw [hbelled, hpooled, hposts.rest]⟩
  exact h pairs posted pool board bell hposts

/-- Installing a driver for groups of records that exist, each in one of them. -/
theorem startDriver_enlists {host : Host} {groups : List (List (Ref .record))}
    (hnodup : groups.flatten.Nodup) (hnonempty : ∀ members ∈ groups, members ≠ [])
    (hexist : ∀ ref ∈ groups.flatten, (host.records.get? ref).isSome) :
    After host (startDriver groups) fun _ host' => ∃ pairs driver bell work,
      Enlists host host' groups pairs driver bell work := by
  refine startDriver_plans fun pairs posted pool board bell hposts => ?_
  have hgroups := hposts.groups
  refine (newCompletions_shares host.drivers.next pairs (hgroups ▸ hnodup) (hgroups ▸ hnonempty)
    (hgroups ▸ hexist)).mono fun _ host' hshares => ?_
  have hverdicts : host'.verdicts = posted.verdicts := by
    rw [hshares.rest]
    rfl
  have hdrivers : host'.drivers = (planHost host posted.verdicts board bell
      (plannedDriver host groups pairs pool)).drivers := by rw [hshares.rest]
  refine ⟨pairs, host.drivers.next, bell, plannedDriver host groups pairs pool, ?_, ?_, ?_, ?_,
    fun other => ?_, rfl, rfl, rfl⟩
  · rw [hshares.rest]
    rfl
  · rw [hverdicts]
    exact ⟨rfl, hposts.groups, hposts.kept, hposts.fresh, hposts.nodup⟩
  · exact ⟨rfl, hshares.kept, hshares.others, hshares.shared, hshares.new⟩
  · change (host.drivers.get? host.drivers.next).map _ = none
    rw [Arena.get?_next]
    rfl
  · change (host'.drivers.get? other).map _ = _
    rw [hdrivers]
    change ((host.drivers.push _).get? other).map _ = _
    rw [Arena.get?_push]
    split <;> rfl

end Act

end ModuleLoader
