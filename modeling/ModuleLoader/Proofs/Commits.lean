import Mathlib.Data.List.Nodup
import ModuleLoader.Proofs.Batches
import ModuleLoader.Proofs.Promises
/-!
What linking makes of the records that it commits: a scope and a namespace whose slots are where the
wiring says.
-/

namespace ModuleLoader
set_option autoImplicit false

/-- After writing several pairs, a name has the value of one of its pairs, or what it had before. -/
theorem Table.get?_insertAll {α β : Type} (f : β → α) (name : String) :
    ∀ (pairs : List (String × β)) (table : Table α),
      let written := pairs.foldl (fun table pair => table.insert pair.1 (f pair.2)) table
      (∃ value, (name, value) ∈ pairs ∧ written.get? name = some (f value)) ∨
        name ∉ pairs.map Prod.fst ∧ written.get? name = table.get? name
  | [], table => .inr ⟨List.not_mem_nil, rfl⟩
  | (first, value) :: rest, table => by
    rw [List.foldl_cons]
    rcases get?_insertAll f name rest (table.insert first (f value)) with
      ⟨value', hmem, hget⟩ | ⟨hnot, hget⟩
    · exact .inl ⟨value', List.mem_cons_of_mem _ hmem, hget⟩
    · rw [Table.get?_insert] at hget
      by_cases hname : first = name
      · subst hname
        rw [if_pos rfl] at hget
        exact .inl ⟨value, List.mem_cons_self, hget⟩
      · rw [if_neg hname] at hget
        refine .inr ⟨fun hmem => ?_, hget⟩
        rcases List.mem_cons.1 hmem with heq | hmem
        · exact hname heq.symm
        · exact hnot hmem

/-- After first writes of several pairs, a name has what it had, or the value of its first pair. -/
theorem Table.get?_insertNews {α β : Type} (f : β → α) (name : String) :
    ∀ (pairs : List (String × β)) (table : Table α),
      (pairs.foldl (fun table pair => table.insertNew pair.1 (f pair.2)) table).get? name =
        match table.get? name with
        | some value => some value
        | none => (pairs.find? fun pair => pair.1 = name).map fun pair => f pair.2
  | [], table => by
    cases h : table.get? name <;> simp [h]
  | (first, value) :: rest, table => by
    rw [List.foldl_cons, get?_insertNews f name rest, Table.get?_insertNew, List.find?_cons]
    cases htable : table.get? name with
    | some old =>
      rw [if_neg]
      rintro ⟨rfl, hnone⟩
      simp [htable] at hnone
    | none =>
      by_cases hname : first = name
      · subst hname
        simp [htable]
      · simp [hname]

namespace Environment

theorem bounds_declareLocals : ∀ (pairs : List (String × Ref .slot)) (environment : Environment),
    (pairs.foldl (fun environment pair => environment.declareLocal pair.1 pair.2)
      environment).bounds = pairs.foldl (fun table pair => table.insertNew pair.1 ⟨pair.2, true⟩)
        environment.bounds
  | [], _ => rfl
  | _ :: rest, _ => bounds_declareLocals rest _

theorem bounds_declareImports : ∀ (pairs : List (String × Ref .slot)) (environment : Environment),
    (pairs.foldl (fun environment pair => environment.declareImport pair.1 pair.2)
      environment).bounds = pairs.foldl (fun table pair => table.insert pair.1 ⟨pair.2, false⟩)
        environment.bounds
  | [], _ => rfl
  | _ :: rest, _ => bounds_declareImports rest _

end Environment

namespace Act

/-- A namespace after slots were put on it. -/
def definedOn (slots : List (String × Ref .slot)) (space : Namespace) : Namespace :=
  { space with
    exports := slots.foldl (fun exports pair => exports.insert pair.1 pair.2) space.exports }

theorem defineAll_eq (space : Ref .exports) : ∀ (slots : List (String × Ref .slot)) (store : Store),
    (defineAll space slots store).2.objects = store.objects ∧
      (defineAll space slots store).2.slots = store.slots ∧
        ∀ other, (defineAll space slots store).2.spaces.get? other =
          if space = other then (store.spaces.get? other).map (definedOn slots)
          else store.spaces.get? other
  | [], store => by
    refine ⟨rfl, rfl, fun other => ?_⟩
    change store.spaces.get? other = _
    split
    · cases store.spaces.get? other <;> rfl
    · rfl
  | (name, slot) :: rest, store => by
    obtain ⟨hobjects, hslots, hspaces⟩ := defineAll_eq space rest (Store.define space name slot store).2
    refine ⟨hobjects, hslots, fun other => (hspaces other).trans ?_⟩
    change (if space = other then ((store.spaces.modify space _).get? other).map (definedOn rest)
      else (store.spaces.modify space _).get? other) = _
    rw [Arena.get?_modify]
    split
    · rw [Option.map_map]
      rfl
    · rfl

/-- Slots that were made: new ones, all distinct, and empty. -/
structure Made (store store' : Store) (slots : List (Ref .slot)) : Prop where
  rest : store' = { store with slots := store'.slots }
  extends' : store.slots.Extends store'.slots
  nodup : slots.Nodup
  new : ∀ slot ∈ slots, store.slots.get? slot = none ∧ store'.slots.get? slot = some none

theorem Made.append {a b c : Store} {slots slots' : List (Ref .slot)} (hab : Made a b slots)
    (hbc : Made b c slots') : Made a c (slots ++ slots') where
  rest := by rw [hbc.rest, hab.rest]
  extends' := hab.extends'.trans hbc.extends'
  nodup := by
    refine List.nodup_append.2 ⟨hab.nodup, hbc.nodup, ?_⟩
    rintro slot hmem _ hmem' rfl
    have hthere := (hab.new slot hmem).2
    rw [(hbc.new slot hmem').1] at hthere
    cases hthere
  new slot hmem := by
    rcases List.mem_append.1 hmem with hmem | hmem
    · exact ⟨(hab.new slot hmem).1, hbc.extends' _ _ (hab.new slot hmem).2⟩
    · refine ⟨?_, (hbc.new slot hmem).2⟩
      cases hslot : a.slots.get? slot with
      | none => rfl
      | some value =>
        have hnone := (hbc.new slot hmem).1
        rw [hab.extends' _ _ hslot] at hnone
        cases hnone

theorem made_newSlot (store : Store) :
    Made store (Store.newSlot none store).2 [(Store.newSlot none store).1] := by
  refine ⟨rfl, Arena.Extends.push _ _, List.pairwise_singleton _ _, fun slot hmem => ?_⟩
  obtain rfl := List.mem_singleton.1 hmem
  refine ⟨Arena.get?_next _, ?_⟩
  exact (Arena.get?_push store.slots none store.slots.next).trans (if_pos rfl)

theorem made_newSlots : ∀ (names : List String) (store : Store),
    (newSlots names store).1.map Prod.fst = names ∧
      Made store (newSlots names store).2 ((newSlots names store).1.map Prod.snd)
  | [], store => ⟨rfl, rfl, .refl _, List.nodup_nil, fun _ hmem => nomatch hmem⟩
  | name :: rest, store => by
    obtain ⟨hnames, hmade⟩ := made_newSlots rest (Store.newSlot none store).2
    exact ⟨congrArg (name :: ·) hnames, (made_newSlot store).append hmade⟩

/-- All slots made for local names, with their records and names. -/
def flattened (slots : List (Ref .record × List (String × Ref .slot))) :
    List ((Ref .record × String) × Ref .slot) :=
  slots.flatMap fun pair => pair.2.map fun named => ((pair.1, named.1), named.2)

theorem made_localSlots : ∀ (units : List LinkUnit) (host : Host),
    (localSlots units host).2 = { host with store := (localSlots units host).2.store } ∧
      (localSlots units host).1.map (fun pair => (pair.1, pair.2.map Prod.fst)) =
        units.map (fun unit => (unit.record, unit.localNames)) ∧
        Made host.store (localSlots units host).2.store
          ((flattened (localSlots units host).1).map Prod.snd)
  | [], host => ⟨rfl, rfl, rfl, .refl _, List.nodup_nil, fun _ hmem => nomatch hmem⟩
  | unit :: rest, host => by
    obtain ⟨hnames, hmade⟩ := made_newSlots unit.localNames host.store
    obtain ⟨hhost, hrest, hmade'⟩ := made_localSlots rest (onStore (newSlots unit.localNames) host).2
    refine ⟨hhost.trans rfl, ?_, ?_⟩
    · change (unit.record, _) :: _ = (unit.record, _) :: _
      rw [← hrest]
      exact congrArg (fun names => (unit.record, names) :: _) hnames
    · have hboth := hmade.append hmade'
      have heq : (flattened (localSlots (unit :: rest) host).1).map Prod.snd =
          (newSlots unit.localNames host.store).1.map Prod.snd ++
            (flattened (localSlots rest (onStore (newSlots unit.localNames) host).2).1).map
              Prod.snd := by
        unfold flattened
        change (List.flatMap _ ((unit.record, _) :: _)).map Prod.snd = _
        rw [List.flatMap_cons, List.map_append, List.map_map]
        rfl
      rw [heq]
      exact hboth

/-- The slots made for the local names of a list of units. -/
structure Slots (units : List LinkUnit) (before start : Host)
    (slots : List (Ref .record × List (String × Ref .slot))) : Prop where
  rest : start = { before with store := { before.store with slots := start.store.slots } }
  named : slots.map (fun pair => (pair.1, pair.2.map Prod.fst)) =
    units.map fun unit => (unit.record, unit.localNames)
  made : Made before.store start.store ((flattened slots).map Prod.snd)

theorem localSlots_slots (units : List LinkUnit) (host : Host) :
    Slots units host (localSlots units host).2 (localSlots units host).1 := by
  obtain ⟨hhost, hnamed, hmade⟩ := made_localSlots units host
  refine ⟨hhost.trans ?_, hnamed, hmade⟩
  rw [hmade.rest]

theorem mem_flattened_of_slotOf {slots : List (Ref .record × List (String × Ref .slot))}
    {record : Ref .record} {name : String} {slot : Ref .slot}
    (h : slotOf slots record name = some slot) : ((record, name), slot) ∈ flattened slots := by
  unfold slotOf at h
  split at h
  · cases h
  · rename_i found named hfound
    obtain rfl : found = record := by simpa using List.find?_some hfound
    obtain ⟨⟨found', slot'⟩, hfound', rfl⟩ := Option.map_eq_some_iff.1 h
    obtain rfl : found' = name := by simpa using List.find?_some hfound'
    exact List.mem_flatMap.2 ⟨_, List.mem_of_find?_eq_some hfound,
      List.mem_map.2 ⟨_, List.mem_of_find?_eq_some hfound', rfl⟩⟩

namespace Slots

variable {units : List LinkUnit} {before start : Host}
  {slots : List (Ref .record × List (String × Ref .slot))}

theorem new (h : Slots units before start slots) {record : Ref .record} {name : String}
    {slot : Ref .slot} (hslot : slotOf slots record name = some slot) :
    before.store.slots.get? slot = none ∧ start.store.slots.get? slot = some none :=
  h.made.new slot (List.mem_map_of_mem (f := Prod.snd) (mem_flattened_of_slotOf hslot))

theorem injective (h : Slots units before start slots) {record record' : Ref .record}
    {name name' : String} {slot : Ref .slot} (hslot : slotOf slots record name = some slot)
    (hslot' : slotOf slots record' name' = some slot) : record = record' ∧ name = name' := by
  have heq := List.inj_on_of_nodup_map h.made.nodup (mem_flattened_of_slotOf hslot)
    (mem_flattened_of_slotOf hslot') rfl
  exact Prod.mk.inj (Prod.mk.inj heq).1

theorem isSome (h : Slots units before start slots) (hnodup : (units.map LinkUnit.record).Nodup)
    {unit : LinkUnit} (hunit : unit ∈ units) {name : String} (hname : name ∈ unit.localNames) :
    ∃ slot, slotOf slots unit.record name = some slot := by
  have hmem : (unit.record, unit.localNames) ∈
      slots.map fun pair => (pair.1, pair.2.map Prod.fst) :=
    h.named ▸ List.mem_map.2 ⟨unit, hunit, rfl⟩
  have hrecords : (slots.map Prod.fst).Nodup := by
    have heq := congrArg (List.map Prod.fst) h.named
    rw [List.map_map, List.map_map] at heq
    change slots.map Prod.fst = units.map LinkUnit.record at heq
    rwa [heq]
  obtain ⟨⟨record, named⟩, hpair, heq⟩ := List.mem_map.1 hmem
  obtain ⟨rfl, hnames⟩ := Prod.mk.inj heq
  unfold slotOf
  cases hfound : slots.find? fun pair => decide (pair.1 = unit.record) with
  | none => exact absurd (List.find?_eq_none.1 hfound _ hpair) (by simp)
  | some found =>
    obtain ⟨record, named'⟩ := found
    obtain rfl : record = unit.record := by simpa using List.find?_some hfound
    obtain rfl : named' = named :=
      pair_unique hrecords (List.mem_of_find?_eq_some hfound) hpair
    dsimp only
    rw [← hnames] at hname
    obtain ⟨⟨name', slot⟩, hslot, rfl⟩ := List.mem_map.1 hname
    cases hfind : named'.find? fun pair => decide (pair.1 = name') with
    | none => exact absurd (List.find?_eq_none.1 hfind _ hslot) (by simp)
    | some pair => exact ⟨pair.2, rfl⟩

theorem localNames (h : Slots units before start slots) {record : Ref .record} {name : String}
    {slot : Ref .slot} (hslot : slotOf slots record name = some slot) :
    ∃ unit ∈ units, unit.record = record ∧ name ∈ unit.localNames := by
  obtain ⟨⟨record', named⟩, hpair, hmem⟩ := List.mem_flatMap.1 (mem_flattened_of_slotOf hslot)
  obtain ⟨⟨name', slot'⟩, hnamed, heq⟩ := List.mem_map.1 hmem
  cases heq
  have hunit : (record', named.map Prod.fst) ∈
      units.map fun unit => (unit.record, unit.localNames) :=
    h.named ▸ List.mem_map.2 ⟨_, hpair, rfl⟩
  obtain ⟨unit, hunit, heq⟩ := List.mem_map.1 hunit
  obtain ⟨hrecord, hnames⟩ := Prod.mk.inj heq
  exact ⟨unit, hunit, hrecord, hnames ▸ List.mem_map_of_mem (f := Prod.fst) hnamed⟩

end Slots

/-- The slot is where the origin says, if the records are those of `start`. A namespace is held by a
slot that was made since. -/
def Realises (slots : List (Ref .record × List (String × Ref .slot))) (start host : Host) :
    Origin → Ref .slot → Prop
  | .slot found, slot => slot = found
  | .localName record name, slot => slotOf slots record name = some slot
  | .exports record, slot => start.store.slots.get? slot = none ∧
      host.store.slots.get? slot = some (some (.exports (start.record record).space))

theorem Realises.later {slots : List (Ref .record × List (String × Ref .slot))}
    {start host host' : Host} (hslots : host.store.slots.Extends host'.store.slots)
    {origin : Origin} {slot : Ref .slot} (h : Realises slots start host origin slot) :
    Realises slots start host' origin slot := by
  cases origin with
  | slot found => exact h
  | localName record name => exact h
  | exports record => exact ⟨h.1, hslots _ _ h.2⟩

/-- The slots of several names are where their origins say. -/
structure Placed (slots : List (Ref .record × List (String × Ref .slot))) (start host : Host)
    (origins : List (String × Origin)) (found : List (String × Ref .slot)) : Prop where
  names : found.map Prod.fst = origins.map Prod.fst
  realises : ∀ name slot, (name, slot) ∈ found →
    ∃ origin, (name, origin) ∈ origins ∧ Realises slots start host origin slot

theorem Placed.later {slots : List (Ref .record × List (String × Ref .slot))}
    {start host host' : Host} (hslots : host.store.slots.Extends host'.store.slots)
    {origins : List (String × Origin)} {found : List (String × Ref .slot)}
    (h : Placed slots start host origins found) : Placed slots start host' origins found :=
  ⟨h.names, fun name slot hmem =>
    let ⟨origin, horigin, hrealises⟩ := h.realises name slot hmem
    ⟨origin, horigin, hrealises.later hslots⟩⟩

/-- Only slots were added to a host. -/
structure AddsSlots (host host' : Host) : Prop where
  rest : host' = { host with store := { host.store with slots := host'.store.slots } }
  extends' : host.store.slots.Extends host'.store.slots

theorem AddsSlots.refl (host : Host) : AddsSlots host host := ⟨rfl, .refl _⟩

theorem AddsSlots.trans {a b c : Host} (hab : AddsSlots a b) (hbc : AddsSlots b c) :
    AddsSlots a c :=
  ⟨by rw [hbc.rest, hab.rest], hab.extends'.trans hbc.extends'⟩

section
variable {slots : List (Ref .record × List (String × Ref .slot))} {start host : Host}

theorem slotFor_realises (hslots : start.store.slots.Extends host.store.slots)
    (hspace : ∀ ref, (host.record ref).space = (start.record ref).space) {origin : Origin}
    (horigin : ∀ record name, origin = .localName record name →
      ∃ slot, slotOf slots record name = some slot) :
    After host (slotFor slots origin) fun slot host' =>
      AddsSlots host host' ∧ Realises slots start host' origin slot := by
  unfold slotFor
  cases origin with
  | slot slot => exact ⟨.refl host, rfl⟩
  | localName record name =>
    obtain ⟨slot, hslot⟩ := horigin record name rfl
    dsimp only
    rw [hslot]
    exact ⟨.refl host, hslot⟩
  | exports record =>
    refine ⟨⟨rfl, Arena.Extends.push _ _⟩, ?_, ?_⟩
    · cases hnext : start.store.slots.get? host.store.slots.next with
      | none => exact hnext
      | some value =>
        have hthere := hslots _ _ hnext
        rw [Arena.get?_next] at hthere
        cases hthere
    · rw [← hspace record]
      exact (Arena.get?_push host.store.slots _ host.store.slots.next).trans (if_pos rfl)

theorem slotsFor_placed : ∀ (origins : List (String × Origin)) {host : Host},
    start.store.slots.Extends host.store.slots →
      (∀ ref, (host.record ref).space = (start.record ref).space) →
        (∀ name record own, (name, .localName record own) ∈ origins →
          ∃ slot, slotOf slots record own = some slot) →
            After host (slotsFor slots origins) fun found host' =>
              AddsSlots host host' ∧ Placed slots start host' origins found
  | [], host, _, _, _ => ⟨.refl host, rfl, fun _ _ hmem => nomatch hmem⟩
  | (name, origin) :: rest, host, hslots, hspace, horigins => by
    unfold slotsFor
    rw [after_bind]
    refine (slotFor_realises hslots hspace fun record own heq =>
      horigins name record own (heq ▸ List.mem_cons_self)).mono fun slot middle hmiddle => ?_
    obtain ⟨hadds, hrealises⟩ := hmiddle
    have hrecords : middle.records = host.records := by rw [hadds.rest]
    have hspace : ∀ ref, (middle.record ref).space = (start.record ref).space := by
      intro ref
      rw [← hspace ref]
      unfold Host.record
      rw [hrecords]
    rw [after_bind]
    refine (slotsFor_placed rest (hslots.trans hadds.extends') hspace fun name record own hmem =>
      horigins name record own (List.mem_cons_of_mem _ hmem)).mono fun found last hlast => ?_
    obtain ⟨hadds', hnames, hplaced⟩ := hlast
    refine ⟨hadds.trans hadds', congrArg (name :: ·) hnames, fun name' slot' hmem => ?_⟩
    rcases List.mem_cons.1 hmem with heq | hmem
    · cases heq
      exact ⟨origin, List.mem_cons_self, hrealises.later hadds'.extends'⟩
    · obtain ⟨origin', horigin', hrealises'⟩ := hplaced name' slot' hmem
      exact ⟨origin', List.mem_cons_of_mem _ horigin', hrealises'⟩

end

/-- The scope and the namespace of a record are as its wiring says. What was bound `earlier` in the
scope is bound still, but where a name is imported. -/
structure Committed (slots : List (Ref .record × List (String × Ref .slot))) (start host : Host)
    (ref : Ref .record) (earlier : Environment) (wiring : Wiring) : Prop where
  imports : ∀ name origin, (name, origin) ∈ wiring.imports → ∃ slot,
    (host.record ref).environment.bounds.get? name = some ⟨slot, false⟩ ∧
      Realises slots start host origin slot
  kept : ∀ name bound, earlier.bounds.get? name = some bound →
    name ∉ wiring.imports.map Prod.fst →
      (host.record ref).environment.bounds.get? name = some bound
  locals : ∀ name slot, slotOf slots ref name = some slot → earlier.bounds.get? name = none →
    name ∉ wiring.imports.map Prod.fst →
      (host.record ref).environment.bounds.get? name = some ⟨slot, true⟩
  bound : ∀ name bound, (host.record ref).environment.bounds.get? name = some bound →
    (bound.writable = false ∧
      ∃ origin, (name, origin) ∈ wiring.imports ∧ Realises slots start host origin bound.slot) ∨
    name ∉ wiring.imports.map Prod.fst ∧ (earlier.bounds.get? name = some bound ∨
      earlier.bounds.get? name = none ∧ bound.writable = true ∧
        slotOf slots ref name = some bound.slot)
  exports : ∀ name origin, (name, origin) ∈ wiring.exports → ∃ slot,
    host.store.exportSlot? (host.record ref).space name = some slot ∧
      Realises slots start host origin slot
  exported : ∀ name slot, host.store.exportSlot? (host.record ref).space name = some slot →
    ∃ origin, (name, origin) ∈ wiring.exports ∧ Realises slots start host origin slot

namespace Committed

variable {slots : List (Ref .record × List (String × Ref .slot))} {start host host' : Host}
  {ref : Ref .record} {earlier : Environment} {wiring : Wiring}

theorem later (hslots : host.store.slots.Extends host'.store.slots)
    (hrecord : host'.record ref = host.record ref)
    (hspace : host'.store.spaces.get? (host.record ref).space =
      host.store.spaces.get? (host.record ref).space)
    (h : Committed slots start host ref earlier wiring) :
    Committed slots start host' ref earlier wiring := by
  have hexports (name : String) : host'.store.exportSlot? (host'.record ref).space name =
      host.store.exportSlot? (host.record ref).space name := by
    unfold Store.exportSlot? Store.space
    rw [hrecord, hspace]
  refine ⟨fun name origin hmem => ?_, ?_, ?_, fun name bound hget => ?_,
    fun name origin hmem => ?_, fun name slot hget => ?_⟩
  · obtain ⟨slot, hget, hrealises⟩ := h.imports name origin hmem
    exact ⟨slot, hrecord ▸ hget, hrealises.later hslots⟩
  · exact hrecord ▸ h.kept
  · exact hrecord ▸ h.locals
  · rcases h.bound name bound (hrecord ▸ hget) with ⟨hread, origin, hmem, hrealises⟩ | hown
    · exact .inl ⟨hread, origin, hmem, hrealises.later hslots⟩
    · exact .inr hown
  · obtain ⟨slot, hget, hrealises⟩ := h.exports name origin hmem
    exact ⟨slot, (hexports name).trans hget, hrealises.later hslots⟩
  · obtain ⟨origin, hmem, hrealises⟩ := h.exported name slot ((hexports name).symm.trans hget)
    exact ⟨origin, hmem, hrealises.later hslots⟩

/-- In a scope that was empty, the names to be assigned are those that slots were made for. -/
theorem own (h : Committed slots start host ref default wiring) {name : String} {slot : Ref .slot}
    (hget : (host.record ref).environment.bounds.get? name = some ⟨slot, true⟩) :
    slotOf slots ref name = some slot := by
  rcases h.bound name _ hget with ⟨hread, -⟩ | ⟨-, hold | ⟨-, -, hslot⟩⟩
  · cases hread
  · cases hold
  · exact hslot

/-- In a scope that was empty, the names that cannot be assigned are the imported ones. -/
theorem imported (h : Committed slots start host ref default wiring) {name : String}
    {slot : Ref .slot}
    (hget : (host.record ref).environment.bounds.get? name = some ⟨slot, false⟩) :
    ∃ origin, (name, origin) ∈ wiring.imports ∧ Realises slots start host origin slot := by
  rcases h.bound name _ hget with ⟨-, himport⟩ | ⟨-, hold | ⟨-, hwrite, -⟩⟩
  · exact himport
  · cases hold
  · cases hwrite

end Committed

end Act

/-- A wiring has one origin for each name, and a slot was made for each local name in it. -/
structure Wiring.Sound (slots : List (Ref .record × List (String × Ref .slot))) (wiring : Wiring) :
    Prop where
  imports : ∀ name origin origin', (name, origin) ∈ wiring.imports →
    (name, origin') ∈ wiring.imports → origin = origin'
  exports : ∀ name origin origin', (name, origin) ∈ wiring.exports →
    (name, origin') ∈ wiring.exports → origin = origin'
  made : ∀ name record own, (name, .localName record own) ∈ wiring.imports ++ wiring.exports →
    ∃ slot, Act.slotOf slots record own = some slot

namespace Act

/-- The scope of a record after a commit. -/
def scopeFrom (slots : List (Ref .record × List (String × Ref .slot))) (ref : Ref .record)
    (imports : List (String × Ref .slot)) (environment : Environment) : Environment :=
  let declared := match slots.find? fun pair => pair.1 = ref with
    | some (_, named) => named
    | none => []
  imports.foldl (fun environment pair => environment.declareImport pair.1 pair.2)
    (declared.foldl (fun environment pair => environment.declareLocal pair.1 pair.2) environment)

section
variable {slots : List (Ref .record × List (String × Ref .slot))} {start host : Host}

theorem get?_scopeFrom (ref : Ref .record) (imports : List (String × Ref .slot))
    (earlier : Environment) (name : String) :
    (∃ slot, (name, slot) ∈ imports ∧
      (scopeFrom slots ref imports earlier).bounds.get? name = some ⟨slot, false⟩) ∨
      name ∉ imports.map Prod.fst ∧ (scopeFrom slots ref imports earlier).bounds.get? name =
        match earlier.bounds.get? name with
        | some bound => some bound
        | none => (slotOf slots ref name).map (⟨·, true⟩) := by
  unfold scopeFrom
  rw [Environment.bounds_declareImports, Environment.bounds_declareLocals]
  rcases Table.get?_insertAll (fun slot => (⟨slot, false⟩ : Bound)) name imports
    (List.foldl (fun table pair => table.insertNew pair.1 (⟨pair.2, true⟩ : Bound))
      earlier.bounds (match slots.find? fun pair => pair.1 = ref with
        | some (_, named) => named
        | none => [])) with ⟨slot, hmem, hget⟩ | ⟨hnot, hget⟩
  · exact .inl ⟨slot, hmem, hget⟩
  · refine .inr ⟨hnot, hget.trans ?_⟩
    rw [Table.get?_insertNews (fun slot => (⟨slot, true⟩ : Bound)) name]
    unfold slotOf
    cases earlier.bounds.get? name with
    | some bound => rfl
    | none =>
      dsimp only
      cases slots.find? fun pair => decide (pair.1 = ref) with
      | none => rfl
      | some found =>
        obtain ⟨record, named⟩ := found
        dsimp only
        rw [Option.map_map]
        rfl

/-- A scope and a namespace with the right slots are as the wiring says. -/
theorem committed_of_placed {ref : Ref .record} {earlier : Environment} {wiring : Wiring}
    {imports exports : List (String × Ref .slot)}
    (hscope : (host.record ref).environment = scopeFrom slots ref imports earlier)
    (hspace : (host.store.space (host.record ref).space).exports =
      exports.foldl (fun exports pair => exports.insert pair.1 pair.2) .empty)
    (himports : Placed slots start host wiring.imports imports)
    (hexports : Placed slots start host wiring.exports exports) (hsound : wiring.Sound slots) :
    Committed slots start host ref earlier wiring := by
  have hexport (name : String) : (∃ slot, (name, slot) ∈ exports ∧
      host.store.exportSlot? (host.record ref).space name = some slot) ∨
        name ∉ exports.map Prod.fst ∧
          host.store.exportSlot? (host.record ref).space name = none := by
    unfold Store.exportSlot?
    rw [hspace]
    exact Table.get?_insertAll id name exports .empty
  -- A name that is not imported has what it had, or a slot of its own.
  have hscope' (name : String) (hnot : name ∉ wiring.imports.map Prod.fst) :
      (host.record ref).environment.bounds.get? name = match earlier.bounds.get? name with
        | some bound => some bound
        | none => (slotOf slots ref name).map (⟨·, true⟩) := by
    rw [hscope]
    rcases get?_scopeFrom ref imports earlier name with ⟨slot, hslot, -⟩ | ⟨-, hget⟩
    · rw [← himports.names] at hnot
      exact absurd (List.mem_map_of_mem (f := Prod.fst) hslot) hnot
    · exact hget
  refine ⟨fun name origin hmem => ?_, fun name bound hold hnot => ?_,
    fun name slot hslot hnone hnot => ?_, fun name bound hget => ?_, fun name origin hmem => ?_,
    fun name slot hget => ?_⟩
  · rw [hscope]
    rcases get?_scopeFrom ref imports earlier name with ⟨slot, hslot, hget⟩ | ⟨hnot, -⟩
    · obtain ⟨origin', horigin, hrealises⟩ := himports.realises name slot hslot
      exact ⟨slot, hget, hsound.imports name origin' origin horigin hmem ▸ hrealises⟩
    · rw [himports.names] at hnot
      exact absurd (List.mem_map_of_mem (f := Prod.fst) hmem) hnot
  · rw [hscope' name hnot, hold]
  · rw [hscope' name hnot, hnone, hslot]
    rfl
  · rw [hscope] at hget
    rcases get?_scopeFrom ref imports earlier name with ⟨slot, hslot, hget'⟩ | ⟨hnot, hget'⟩
    · rw [hget] at hget'
      cases hget'
      exact .inl ⟨rfl, himports.realises name slot hslot⟩
    · rw [himports.names] at hnot
      refine .inr ⟨hnot, ?_⟩
      rw [hget] at hget'
      cases hold : earlier.bounds.get? name with
      | some old =>
        rw [hold] at hget'
        exact .inl hget'.symm
      | none =>
        rw [hold] at hget'
        obtain ⟨slot, hslot, heq⟩ := Option.map_eq_some_iff.1 hget'.symm
        cases heq
        exact .inr ⟨rfl, rfl, hslot⟩
  · rcases hexport name with ⟨slot, hslot, hget⟩ | ⟨hnot, -⟩
    · obtain ⟨origin', horigin, hrealises⟩ := hexports.realises name slot hslot
      exact ⟨slot, hget, hsound.exports name origin' origin horigin hmem ▸ hrealises⟩
    · rw [hexports.names] at hnot
      exact absurd (List.mem_map_of_mem (f := Prod.fst) hmem) hnot
  · rcases hexport name with ⟨slot', hslot', hget'⟩ | ⟨-, hget'⟩
    · rw [hget] at hget'
      cases hget'
      exact hexports.realises name slot hslot'
    · rw [hget] at hget'
      cases hget'

/-- What a record of the batch became: committed, or failed with nothing on its namespace. -/
def Settled (slots : List (Ref .record × List (String × Ref .slot))) (start host : Host)
    (ref : Ref .record) (record : Record) : Except Failure Wiring → Prop
  | .ok wiring => Committed slots start host ref record.environment wiring ∧ ∃ environment,
      host.records.get? ref = some { record with environment, phase := .linked }
  | .error failure => (host.store.space record.space).exports = .empty ∧
      host.records.get? ref = some { record with phase := .failed, error := some failure }

theorem Settled.later {host' : Host} (hslots : host.store.slots.Extends host'.store.slots)
    {ref : Ref .record} (hrecord : host'.records.get? ref = host.records.get? ref)
    {record : Record} (hspace : host'.store.spaces.get? record.space =
      host.store.spaces.get? record.space) {outcome : Except Failure Wiring}
    (h : Settled slots start host ref record outcome) :
    Settled slots start host' ref record outcome := by
  cases outcome with
  | error failure =>
    refine ⟨?_, hrecord.trans h.2⟩
    unfold Store.space
    rw [hspace]
    exact h.1
  | ok wiring =>
    obtain ⟨hcommitted, environment, hget⟩ := h
    have heq : host'.record ref = host.record ref := congrArg (Option.getD · default) hrecord
    have hown : host.record ref = { record with environment, phase := .linked } :=
      congrArg (Option.getD · default) hget
    refine ⟨hcommitted.later hslots heq ?_, environment, hrecord.trans hget⟩
    rw [hown]
    exact hspace

theorem Settled.space {ref : Ref .record} {record : Record} {outcome : Except Failure Wiring}
    (h : Settled slots start host ref record outcome) : (host.record ref).space = record.space := by
  cases outcome with
  | error failure =>
    exact congrArg (fun found => (found.getD default).space) h.2
  | ok wiring =>
    obtain ⟨-, environment, hget⟩ := h
    exact congrArg (fun found => (found.getD default).space) hget

/-- The phase that a record of a batch enters. -/
def settledPhase : Except Failure Wiring → Phase
  | .ok _ => .linked
  | .error _ => .failed

/-- A record of the batch was settled, and nothing else but slots changed. -/
structure SettlesTo (slots : List (Ref .record × List (String × Ref .slot))) (start host host' : Host)
    (ref : Ref .record) (record : Record) (outcome : Except Failure Wiring) : Prop where
  rest : host' = { host with
    store := { host.store with slots := host'.store.slots, spaces := host'.store.spaces }
    records := host'.records
    chronicle := .moved ref (settledPhase outcome) :: host.chronicle }
  extends' : host.store.slots.Extends host'.store.slots
  others : ∀ other, other ≠ ref → host'.records.get? other = host.records.get? other
  spaces : ∀ space, space ≠ record.space →
    host'.store.spaces.get? space = host.store.spaces.get? space
  exist : ∀ space, (host.store.spaces.get? space).isSome →
    (host'.store.spaces.get? space).isSome
  settled : Settled slots start host' ref record outcome

/-- A record that is being linked, with nothing on its namespace yet. -/
structure Blank (host : Host) (ref : Ref .record) (record : Record) : Prop where
  get : host.records.get? ref = some record
  phase : record.phase = .linking
  space : ∃ space, host.store.spaces.get? record.space = some space ∧ space.exports = .empty

/-- A record of a batch is written: its scope, its namespace, and that it is linked. -/
def write (slots : List (Ref .record × List (String × Ref .slot))) (ref : Ref .record)
    (imports exports : List (String × Ref .slot)) : Act Unit := do
  changeRecord ref fun record =>
    { record with environment := scopeFrom slots ref imports record.environment }
  onStore (defineAll ((← get).record ref).space exports)
  changeRecord ref fun record => record.advance .linked

/-- A commit finds all the slots before it writes. -/
theorem commit_eq (slots : List (Ref .record × List (String × Ref .slot))) (ref : Ref .record)
    (wiring : Wiring) : commit slots ref wiring = (do
      let imports ← slotsFor slots wiring.imports
      let exports ← slotsFor slots wiring.exports
      write slots ref imports exports) :=
  rfl

/-- A record was written. -/
structure Wrote (host host' : Host) (ref : Ref .record) (record : Record) (environment : Environment)
    (exports : List (String × Ref .slot)) : Prop where
  rest : host' = { host with
    store := { host.store with spaces := host'.store.spaces }
    records := host'.records
    chronicle := .moved ref .linked :: host.chronicle }
  get : host'.records.get? ref = some { record with environment, phase := .linked }
  others : ∀ other, other ≠ ref → host'.records.get? other = host.records.get? other
  spaces : ∀ other, host'.store.spaces.get? other =
    if record.space = other then (host.store.spaces.get? other).map (definedOn exports)
    else host.store.spaces.get? other

theorem write_wrote {ref : Ref .record} {record : Record}
    (hrecord : host.records.get? ref = some record) (hphase : record.phase = .linking)
    (imports exports : List (String × Ref .slot)) :
    After host (write slots ref imports exports) fun _ host' =>
      Wrote host host' ref record (scopeFrom slots ref imports record.environment) exports := by
  let wired (record : Record) : Record :=
    { record with environment := scopeFrom slots ref imports record.environment }
  let bound : Host := { host with records := host.records.modify ref wired }
  let defined : Host := { bound with store := (defineAll record.space exports bound.store).2 }
  have hwired : bound.records.get? ref = some (wired record) := by
    rw [Arena.get?_modify, if_pos rfl, hrecord]
    rfl
  have hspace : (bound.record ref).space = record.space :=
    congrArg (fun found => (found.getD default).space) hwired
  have hadvance : (wired record).advance .linked = { wired record with phase := .linked } :=
    Record.advance_of_allows (by
      change record.phase.allows .linked = true
      rw [hphase]
      rfl)
  unfold write
  rw [after_bind]
  refine (after_changeRecord_same ?_).2 ?_
  · exact fun _ => rfl
  change After bound (do
    onStore (defineAll ((← get).record ref).space exports)
    changeRecord ref fun record => record.advance .linked) _
  rw [after_bind, after_get, after_bind, after_onStore, hspace]
  obtain ⟨hobjects, hslots, hdefined⟩ := defineAll_eq record.space exports bound.store
  have hlinks : After defined (changeRecord ref (Record.advance · .linked)) fun _ host' =>
      defined.MovesTo host' ref { wired record with phase := .linked } :=
    changeRecord_moves hwired hadvance (by
      change Phase.linked ≠ record.phase
      rw [hphase]
      decide)
  refine hlinks.mono fun _ host' hmoves => ?_
  have hstore : host'.store = (defineAll record.space exports bound.store).2 := by rw [hmoves.rest]
  refine ⟨?_, hmoves.get, fun other hother => ?_, fun other => ?_⟩
  · have hspaces : (defineAll record.space exports bound.store).2 =
        { host.store with spaces := host'.store.spaces } := by
      rw [hstore]
      change _ = (⟨host.store.objects, host.store.slots, _⟩ : Store)
      rw [← show _ = host.store.objects from hobjects, ← show _ = host.store.slots from hslots]
    exact hmoves.rest.trans (hspaces ▸ rfl)
  · rw [hmoves.others other hother]
    exact (Arena.get?_modify _ _ _ _).trans (if_neg (Ne.symm hother))
  · rw [hstore]
    exact hdefined other

/-- A record with its slots that is written is settled. -/
theorem Wrote.settles {host' : Host} {ref : Ref .record} {record : Record} {wiring : Wiring}
    {imports exports : List (String × Ref .slot)}
    (h : Wrote host host' ref record (scopeFrom slots ref imports record.environment) exports)
    (hblank : Blank host ref record) (hsound : wiring.Sound slots)
    (himports : Placed slots start host wiring.imports imports)
    (hexports : Placed slots start host wiring.exports exports) :
    SettlesTo slots start host host' ref record (.ok wiring) := by
  obtain ⟨-, -, space, hspace, hempty⟩ := hblank
  have hslots : host.store.slots.Extends host'.store.slots := .of_eq (by rw [h.rest])
  have hrecord : host'.record ref = { record with
      environment := scopeFrom slots ref imports record.environment, phase := .linked } :=
    congrArg (Option.getD · default) h.get
  refine ⟨?_, hslots, h.others, fun other hother => ?_, fun other hother => ?_, ?_, _, h.get⟩
  · rw [h.rest]
    rfl
  · rw [h.spaces, if_neg (Ne.symm hother)]
  · rw [h.spaces]
    split
    · rwa [Option.isSome_map]
    · exact hother
  · refine committed_of_placed ?_ ?_ (himports.later hslots) (hexports.later hslots) hsound
    · rw [hrecord]
    · rw [hrecord]
      unfold Store.space
      rw [h.spaces, if_pos rfl, hspace, ← hempty]
      rfl

theorem SettlesTo.after_slots {host' last : Host} {ref : Ref .record} {record : Record}
    {outcome : Except Failure Wiring} (hadds : AddsSlots host last)
    (h : SettlesTo slots start last host' ref record outcome) :
    SettlesTo slots start host host' ref record outcome where
  rest := by rw [h.rest, hadds.rest]
  extends' := hadds.extends'.trans h.extends'
  others other hother := (h.others other hother).trans (by rw [hadds.rest])
  spaces space hspace := (h.spaces space hspace).trans (by rw [hadds.rest])
  exist space hspace := h.exist space (by rwa [hadds.rest])
  settled := h.settled

theorem AddsSlots.blank {host' : Host} (h : AddsSlots host host') {ref : Ref .record} {record : Record}
    (hblank : Blank host ref record) : Blank host' ref record := by
  have hrecords : host'.records = host.records := by rw [h.rest]
  have hspaces : host'.store.spaces = host.store.spaces := by rw [h.rest]
  exact ⟨hrecords ▸ hblank.get, hblank.phase, hspaces ▸ hblank.space⟩

theorem AddsSlots.record {host' : Host} (h : AddsSlots host host') (ref : Ref .record) :
    host'.record ref = host.record ref := by
  rw [h.rest]
  rfl

theorem commit_settles (hslots : start.store.slots.Extends host.store.slots)
    (hspace : ∀ ref, (host.record ref).space = (start.record ref).space) {ref : Ref .record}
    {record : Record} (hblank : Blank host ref record) {wiring : Wiring}
    (hsound : wiring.Sound slots) :
    After host (commit slots ref wiring) fun _ host' =>
      SettlesTo slots start host host' ref record (.ok wiring) := by
  rw [commit_eq, after_bind]
  refine (slotsFor_placed wiring.imports hslots hspace fun name record own hmem =>
    hsound.made name record own (List.mem_append_left _ hmem)).mono fun imports middle hmiddle => ?_
  obtain ⟨hadds, himports⟩ := hmiddle
  have hspace (ref : Ref .record) : (middle.record ref).space = (start.record ref).space := by
    rw [hadds.record ref, hspace ref]
  rw [after_bind]
  refine (slotsFor_placed wiring.exports (hslots.trans hadds.extends') hspace
    fun name record own hmem => hsound.made name record own
      (List.mem_append_right _ hmem)).mono fun exports last hlast => ?_
  obtain ⟨hadds', hexports⟩ := hlast
  have hadds := hadds.trans hadds'
  have hblank := hadds.blank hblank
  refine (write_wrote hblank.get hblank.phase imports exports).mono fun _ host' hwrote => ?_
  exact (hwrote.settles hblank hsound (himports.later hadds'.extends') hexports).after_slots hadds

theorem fail_settles {ref : Ref .record} {record : Record} (hblank : Blank host ref record)
    (failure : Failure) :
    After host (changeRecord ref fun record => record.fail failure) fun _ host' =>
      SettlesTo slots start host host' ref record (.error failure) := by
  obtain ⟨hrecord, hphase, space, hexports, hempty⟩ := hblank
  have hfail : record.fail failure = { record with phase := .failed, error := some failure } :=
    Record.fail_of_open (by rw [hphase]; rfl) failure
  refine (changeRecord_moves hrecord hfail ?_).mono fun _ host' hmoves => ?_
  · change Phase.failed ≠ record.phase
    rw [hphase]
    decide
  have hstore : host'.store = host.store := by rw [hmoves.rest]
  refine ⟨?_, .of_eq (by rw [hstore]), hmoves.others, fun other hother => by rw [hstore],
    fun _ hother => by rwa [hstore], ?_, hmoves.get⟩
  · rw [hmoves.rest]
    rfl
  · unfold Store.space
    rw [hstore, hexports]
    exact hempty

/-- What becomes of a record: a failure that reached it goes before its wiring. -/
def outcomeOf (failed : List (Ref .record × Failure)) (pair : LinkUnit × Except Failure Wiring) :
    Except Failure Wiring :=
  match Batch.failureAmong failed pair.1.record with
  | some failure => .error failure
  | none => pair.2

theorem settle_settles {failed : List (Ref .record × Failure)}
    (hslots : start.store.slots.Extends host.store.slots)
    (hspace : ∀ ref, (host.record ref).space = (start.record ref).space) {unit : LinkUnit}
    {record : Record} (hblank : Blank host unit.record record) {wiring : Except Failure Wiring}
    (hsound : ∀ found, wiring = .ok found → found.Sound slots) :
    After host (settle slots failed unit wiring) fun _ host' => SettlesTo slots start host host'
      unit.record record (outcomeOf failed (unit, wiring)) := by
  unfold outcomeOf settle
  dsimp only
  cases Batch.failureAmong failed unit.record with
  | some failure => exact fail_settles hblank failure
  | none =>
    cases wiring with
    | error failure => exact fail_settles hblank failure
    | ok wiring => exact commit_settles hslots hspace hblank (hsound wiring rfl)

/-- The records of a batch that are still to be settled. -/
structure Unsettled (start host : Host) (refs : List (Ref .record)) : Prop where
  extends' : start.store.slots.Extends host.store.slots
  spaces : ∀ ref, (host.record ref).space = (start.record ref).space
  blank : ∀ ref ∈ refs, ∃ record, Blank host ref record
  nodup : refs.Nodup
  distinct : ∀ ref ∈ refs, ∀ other ∈ refs, (host.record ref).space = (host.record other).space →
    ref = other

/-- Every record of a batch was settled, and nothing else but slots changed. -/
structure SettlesAll (slots : List (Ref .record × List (String × Ref .slot)))
    (failed : List (Ref .record × Failure)) (start host host' : Host)
    (wirings : List (LinkUnit × Except Failure Wiring)) : Prop where
  rest : host' = { host with
    store := { host.store with slots := host'.store.slots, spaces := host'.store.spaces }
    records := host'.records
    chronicle := host'.chronicle }
  extends' : host.store.slots.Extends host'.store.slots
  others : ∀ other, other ∉ wirings.map (fun pair => pair.1.record) →
    host'.records.get? other = host.records.get? other
  spaces : ∀ space, (∀ pair ∈ wirings, space ≠ (host.record pair.1.record).space) →
    host'.store.spaces.get? space = host.store.spaces.get? space
  exist : ∀ space, (host.store.spaces.get? space).isSome →
    (host'.store.spaces.get? space).isSome
  settled : ∀ pair ∈ wirings, Settled slots start host' pair.1.record (host.record pair.1.record)
    (outcomeOf failed pair)
  chronicle : host'.chronicle = (wirings.map fun pair =>
    .moved pair.1.record (settledPhase (outcomeOf failed pair))).reverse ++ host.chronicle

/-- Once one record is settled, the others are still to be. -/
theorem Unsettled.next {unit : LinkUnit} {rest : List (Ref .record)} {host middle : Host} {record : Record}
    {outcome : Except Failure Wiring} (h : Unsettled start host (unit.record :: rest))
    (hown : host.record unit.record = record)
    (hfirst : SettlesTo slots start host middle unit.record record outcome) :
    Unsettled start middle rest ∧ ∀ ref ∈ rest,
      middle.record ref = host.record ref ∧ (host.record ref).space ≠ record.space := by
  obtain ⟨hnew, hnodup⟩ := List.nodup_cons.1 h.nodup
  have hother (ref : Ref .record) (hmem : ref ∈ rest) :
      middle.record ref = host.record ref ∧ (host.record ref).space ≠ record.space := by
    have hne : ref ≠ unit.record := fun heq => hnew (heq ▸ hmem)
    refine ⟨congrArg (Option.getD · default) (hfirst.others ref hne), fun hspace => hne ?_⟩
    exact h.distinct ref (List.mem_cons_of_mem _ hmem) unit.record List.mem_cons_self (hown ▸ hspace)
  refine ⟨⟨h.extends'.trans hfirst.extends', fun ref => ?_, fun ref hmem => ?_, hnodup,
    fun ref hmem other hmem' heq => ?_⟩, hother⟩
  · rw [← h.spaces ref]
    by_cases hne : ref = unit.record
    · subst hne
      rw [hown]
      exact hfirst.settled.space
    · exact congrArg (fun found => (found.getD default).space) (hfirst.others ref hne)
  · obtain ⟨record', hget, hphase, space, hspace, hempty⟩ :=
      h.blank ref (List.mem_cons_of_mem _ hmem)
    have hne : ref ≠ unit.record := fun heq => hnew (heq ▸ hmem)
    have hown' : host.record ref = record' := congrArg (Option.getD · default) hget
    refine ⟨record', (hfirst.others ref hne).trans hget, hphase, space, ?_, hempty⟩
    rw [hfirst.spaces _ (hown' ▸ (hother ref hmem).2), hspace]
  · rw [(hother ref hmem).1, (hother other hmem').1] at heq
    exact h.distinct ref (List.mem_cons_of_mem _ hmem) other (List.mem_cons_of_mem _ hmem') heq

theorem commitAll_settles {failed : List (Ref .record × Failure)} :
    ∀ (wirings : List (LinkUnit × Except Failure Wiring)) {host : Host},
      Unsettled start host (wirings.map fun pair => pair.1.record) →
        (∀ unit wiring, (unit, .ok wiring) ∈ wirings → wiring.Sound slots) →
          After host (commitAll slots failed wirings) fun _ host' =>
            SettlesAll slots failed start host host' wirings
  | [], host, _, _ =>
    ⟨rfl, .refl _, fun _ _ => rfl, fun _ _ => rfl, fun _ h => h, (fun _ hmem => nomatch hmem), rfl⟩
  | (unit, wiring) :: rest, host, h, hsound => by
    obtain ⟨record, hblank⟩ := h.blank unit.record List.mem_cons_self
    have hown : host.record unit.record = record := congrArg (Option.getD · default) hblank.get
    unfold commitAll
    rw [after_bind]
    refine (settle_settles h.extends' h.spaces hblank fun wiring heq =>
      hsound unit wiring (heq ▸ List.mem_cons_self)).mono fun _ middle hfirst => ?_
    obtain ⟨hmiddle, hother⟩ := Unsettled.next h hown hfirst
    have hnew : unit.record ∉ rest.map fun pair => pair.1.record := (List.nodup_cons.1 h.nodup).1
    refine (commitAll_settles rest hmiddle fun unit wiring hmem =>
      hsound unit wiring (List.mem_cons_of_mem _ hmem)).mono fun _ last hlast => ?_
    refine ⟨?_, hfirst.extends'.trans hlast.extends', fun other hnot => ?_, fun space hnot => ?_,
      fun space hspace => hlast.exist space (hfirst.exist space hspace), fun pair hmem => ?_, ?_⟩
    · rw [hlast.rest, hfirst.rest]
    · rw [hlast.others other fun hmem => hnot (List.mem_cons_of_mem _ hmem),
        hfirst.others other fun heq => hnot (heq ▸ List.mem_cons_self)]
    · have hspace := hnot _ List.mem_cons_self
      rw [hown] at hspace
      rw [hlast.spaces space fun pair hmem => ?_, hfirst.spaces space hspace]
      rw [(hother _ (List.mem_map_of_mem hmem)).1]
      exact hnot pair (List.mem_cons_of_mem _ hmem)
    · rcases List.mem_cons.1 hmem with rfl | hmem
      · rw [hown]
        refine hfirst.settled.later hlast.extends' (hlast.others _ hnew) (hlast.spaces _ ?_)
        intro pair hmem heq
        obtain ⟨hsame, hne⟩ := hother _ (List.mem_map_of_mem hmem)
        rw [hsame] at heq
        exact hne heq.symm
      · rw [← (hother _ (List.mem_map_of_mem hmem)).1]
        exact hlast.settled pair hmem
    · rw [hlast.chronicle, List.map_cons, List.reverse_cons, List.append_assoc]
      congr 1
      rw [hfirst.rest]
      rfl

end

end Act

end ModuleLoader
