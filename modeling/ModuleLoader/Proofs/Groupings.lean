import ModuleLoader.Proofs.DriverPlans
import ModuleLoader.Proofs.PendingGraphs
import ModuleLoader.Proofs.Traversals
/-!
How pending records are grouped when a root is scheduled: the groups are exactly the strongly connected
components of the pending records that the root leads to, dependencies first, and the members of each group
stand in the order in which a depth-first traversal along the requests completes them.
-/

namespace ModuleLoader
set_option autoImplicit false

namespace Host

variable {host : Host} {ref other root : Ref .record}

theorem Pending.next_eq (h : host.Pending ref) :
    host.pendingGraph.next ref.index = (host.pendingDependencies ref).map Ref.index := by
  obtain ⟨record, hrecord⟩ := h.exists
  have hown : host.record ref = record := congrArg (Option.getD · default) hrecord
  have hcell : host.records.cells[ref.index]? = some record := hrecord
  unfold Pending at h
  unfold pendingGraph Graph.next pendingDependencies
  rw [hown] at h ⊢
  rw [Array.getElem?_map, hcell]
  exact if_pos h

theorem pendingGraph_closed (host : Host) : host.pendingGraph.Closed := by
  intro vertex index hmem
  obtain ⟨-, hpending, -⟩ := (mem_pendingGraph_next : Ref.index ⟨index⟩ ∈ host.pendingGraph.next
    (Ref.index ⟨vertex⟩) ↔ _).1 hmem
  obtain ⟨record, hrecord⟩ := hpending.exists
  rw [pendingGraph_order]
  exact (Array.getElem?_eq_some_iff.1 hrecord).1

/-- Groups of records as a root has them scheduled. -/
structure Grouping (host : Host) (root : Ref .record) (groups : List (List (Ref .record))) : Prop where
  nodup : groups.flatten.Nodup
  nonempty : ∀ members ∈ groups, members ≠ []
  /-- They are the pending records that the root leads to. -/
  all : ∀ ref, ref ∈ groups.flatten ↔ host.Pending ref ∧ host.PendingPath root ref
  /-- A group is a strongly connected component. -/
  connected : ∀ members ∈ groups, ∀ ref ∈ members, ∀ other,
    other ∈ members ↔ host.PendingPath ref other ∧ host.PendingPath other ref
  /-- What a group depends on is in this group or an earlier one. -/
  earlier : ∀ (index : Nat) (members : List (Ref .record)), groups[index]? = some members → ∀ ref ∈ members,
    ∀ needed ∈ host.pendingDependencies ref,
      ∃ place others, groups[place]? = some others ∧ needed ∈ others ∧ place ≤ index
  /-- A driver that works out what the group waits for finds only groups that it has planned. -/
  planned : ∀ (index : Nat) (members : List (Ref .record)), groups[index]? = some members →
    ∀ place ∈ (Dependencies.ofMembers (host.ownerIn groups) index
      (fun member => host.dependencies (host.record member)) members).inside, place < index
  /-- The members of each group stand in the order of the traversal. -/
  traversed : ∃ traversal, Traversal.Visits host.pendingDependencies ⟨[], []⟩ [root] traversal ∧
    traversal.left.Perm groups.flatten ∧ ∀ members ∈ groups, members.Sublist traversal.left

/-- The traversal of the pending graph is one of the records. -/
theorem Pending.traversed (hroot : host.Pending root) :
    ∃ traversal, Traversal.Visits host.pendingDependencies ⟨[], []⟩ [root] traversal ∧
      traversal.left.Perm (host.components root).flatten ∧
        ∀ members ∈ host.components root, members.Sublist traversal.left := by
  obtain ⟨traversal, hvisits, hperm, hgroups⟩ :=
    Graph.components_visits host.pendingGraph_closed hroot.lt_order
  refine ⟨traversal.map Ref.mk, ?_, ?_, fun members hmem => ?_⟩
  · refine hvisits.map ref_mk_injective (fun index => host.Pending ⟨index⟩)
      (fun index hpending => ⟨?_, fun next hnext => ?_⟩) fun index hmem => ?_
    · rw [hpending.next_eq, List.map_map]
      exact (List.map_id _).symm
    · rw [hpending.next_eq] at hnext
      obtain ⟨found, hfound, rfl⟩ := List.mem_map.1 hnext
      exact (mem_pendingDependencies.1 hfound).2
    · exact List.mem_singleton.1 hmem ▸ hroot
  · unfold components
    rw [← List.map_flatten]
    exact hperm.map Ref.mk
  · obtain ⟨group, hgroup, rfl⟩ := List.mem_map.1 hmem
    exact (hgroups group hgroup).map Ref.mk

/-- A component that leads to another one does not come before it. -/
theorem Pending.place_le (hroot : host.Pending root) {index place : Nat} {members others : List (Ref .record)}
    (hmembers : (host.components root)[index]? = some members)
    (hothers : (host.components root)[place]? = some others) (href : ref ∈ members) (hother : other ∈ others)
    (hpath : host.PendingPath ref other) : place ≤ index := by
  obtain ⟨hlt, rfl⟩ := List.getElem?_eq_some_iff.1 hmembers
  obtain ⟨hlt', rfl⟩ := List.getElem?_eq_some_iff.1 hothers
  refine Nat.le_of_not_lt fun hafter => ?_
  exact (List.pairwise_iff_getElem.1 hroot.components_apart) index place hlt hlt' hafter ref href other hother
    hpath

/-- Scheduling a pending root: the search for components comes to its end, and what it finds is the grouping
of the pending records that the root leads to. -/
theorem Pending.components_grouping (hroot : host.Pending root) :
    (host.pendingGraph.searchFrom root.index).path = [] ∧
      host.Grouping root (host.components root) := by
  have hplace {ref : Ref .record} {members : List (Ref .record)} (hmembers : members ∈ host.components root)
      (href : ref ∈ members) {other : Ref .record} (hpath : host.PendingPath ref other) :
      ∃ (place : Nat) (others : List (Ref .record)),
        (host.components root)[place]? = some others ∧ other ∈ others := by
    have hmem := hroot.mem_components.1 (List.mem_flatten_of_mem hmembers href)
    obtain ⟨others, hothers, hother⟩ := List.mem_flatten.1 (hroot.mem_components.2 (hmem.trans hpath))
    obtain ⟨place, hplaced⟩ := List.mem_iff_getElem?.1 hothers
    exact ⟨place, others, hplaced, hother⟩
  refine ⟨Graph.searchFrom_ends _ _, components_nodup host root, fun _ => components_nonempty,
    fun ref => ⟨fun hmem => ⟨hroot.of_mem_components hmem, hroot.mem_components.1 hmem⟩,
      fun h => hroot.mem_components.2 h.2⟩,
    fun members hmembers ref href other => ⟨fun hother => ⟨hroot.components_joined hmembers href hother,
      hroot.components_joined hmembers hother href⟩, fun ⟨hforth, hback⟩ => ?_⟩,
    fun index members hmembers ref href needed hneeded => ?_,
    fun index members hmembers place hmem => ?_, hroot.traversed⟩
  · obtain ⟨place, others, hplaced, hother⟩ := hplace hmembers href hforth
    obtain ⟨index, hindex⟩ := List.mem_iff_getElem?.1 hmembers
    obtain rfl := Nat.le_antisymm (hroot.place_le hindex hplaced href hother hforth)
      (hroot.place_le hplaced hindex hother href hback)
    rw [hindex] at hplaced
    exact Option.some.inj hplaced ▸ hother
  · obtain ⟨place, others, hplaced, hother⟩ :=
      hplace (List.mem_of_getElem? hmembers) href (.single hneeded)
    exact ⟨place, others, hplaced, hother, hroot.place_le hmembers hplaced href hother (.single hneeded)⟩
  · have hexist (ref : Ref .record) (hmem : ref ∈ (host.components root).flatten) :
        (host.records.get? ref).isSome := by
      obtain ⟨record, hrecord⟩ := (hroot.of_mem_components hmem).exists
      exact hrecord ▸ rfl
    obtain ⟨hne, needed, hneeded, howner⟩ := ((Dependencies.ofMembers_found _ _ _ _).inside place).1 hmem
    obtain ⟨ref, href, hdepends⟩ := List.mem_flatMap.1 hneeded
    obtain ⟨others, hothers, hother⟩ := (ownerIn_eq_some (components_nodup host root) hexist).1 howner
    have hpending := hroot.of_mem_components (List.mem_flatten_of_mem (List.mem_of_getElem? hothers) hother)
    exact Nat.lt_of_le_of_ne (hroot.place_le hmembers hothers href hother
      (.single (mem_pendingDependencies.2 ⟨hdepends, hpending⟩))) hne

/-- Two compartments with a ring of records, one that needs itself, and one that mentions it twice. -/
def ringHost : Host :=
  let compartment (label : String) (memo : List (String × Entry)) : Compartment :=
    { (default : Compartment) with label, memo := ⟨memo⟩ }
  let record (key : String) (home : Ref .compartment) (requests : List String) (phase : Phase) : Record :=
    { (default : Record) with key, home, requests := requests.map fun key => (key, key), phase }
  { (default : Host) with
    compartments := ⟨#[
      compartment "first" [("a", .own ⟨1⟩), ("b", .own ⟨2⟩), ("lib", .borrowed ⟨1⟩ "lib" ⟨3⟩),
        ("main", .own ⟨0⟩)],
      compartment "second" [("back", .borrowed ⟨0⟩ "main" ⟨0⟩), ("done", .own ⟨4⟩), ("lib", .own ⟨3⟩)]]⟩
    records := ⟨#[
      record "main" ⟨0⟩ ["a", "lib", "a", "lib"] .linked,
      record "a" ⟨0⟩ ["b"] .linked,
      record "b" ⟨0⟩ ["a", "lib"] .linked,
      record "lib" ⟨1⟩ ["lib", "done"] .linked,
      record "done" ⟨1⟩ ["back"] .ready]⟩ }

/-- What was run already leads nowhere, so the record of the other compartment is a group of its own. -/
theorem components_grouping_ring : ringHost.Pending ⟨0⟩ ∧
    ringHost.Grouping ⟨0⟩ [[⟨3⟩], [⟨2⟩, ⟨1⟩], [⟨0⟩]] := by
  have hroot : ringHost.Pending ⟨0⟩ := by
    unfold Pending
    decide +kernel
  have hgroups : ringHost.components ⟨0⟩ = [[⟨3⟩], [⟨2⟩, ⟨1⟩], [⟨0⟩]] := by decide +kernel
  exact ⟨hroot, hgroups ▸ hroot.components_grouping.2⟩

end Host

end ModuleLoader
