import ModuleLoader.Proofs.LinkingBatches
import ModuleLoader.Proofs.SidedRecords
/-!
Linking keeps sides apart: the closure of a key lists records of its own side, all that their names lead to
is there too, and so is whatever is bound.
-/

namespace ModuleLoader
set_option autoImplicit false

variable {sides : Sides} {host host' : Host}

namespace Sides.Apart

variable {side : Bool}

/-- A record depends on records of its own side. -/
theorem lookup (h : sides.Apart host) {ref : Ref .record} (href : host.OnSide sides side ref)
    {key : String} {target : Ref .record}
    (htarget : host.lookup? ⟨(host.record ref).home, key⟩ = some target) :
    host.OnSide sides side target := by
  obtain ⟨entry, hentry, rfl⟩ := Option.map_eq_some_iff.1 htarget
  have hside := (h.memo _ entry hentry).record
  rw [(h.record href).2.home] at hside
  exact hside

theorem target (h : sides.Apart host) {ref : Ref .record} (href : host.OnSide sides side ref)
    {specifier : String} {target : Ref .record}
    (htarget : (Batch.describe host ref).target specifier = .ok target) :
    host.OnSide sides side target := by
  obtain ⟨key, -, hlookup⟩ := Option.bind_eq_some_iff.1 (Batch.target_describe.1 htarget)
  exact h.lookup href hlookup

theorem dependencies (h : sides.Apart host) {ref : Ref .record} (href : host.OnSide sides side ref) :
    ∀ target ∈ host.dependencies (host.record ref), host.OnSide sides side target := by
  intro target hmem
  obtain ⟨key, -, hlookup⟩ := List.mem_filterMap.1 hmem
  exact h.lookup href hlookup

theorem entriesOf (h : sides.Apart host) {nodes : List Node}
    (hnodes : ∀ node ∈ nodes, sides.of node.compartment = side) :
    ∀ pair ∈ host.entriesOf [] nodes,
      sides.of pair.1.compartment = side ∧ pair.2.OnSide host sides side := by
  intro pair hmem
  obtain ⟨node, hnode, hpair⟩ := List.mem_filterMap.1 hmem
  obtain ⟨entry, hentry, rfl⟩ := Option.map_eq_some_iff.1 hpair
  have hside := h.memo node entry hentry
  rw [hnodes node hnode] at hside
  exact ⟨hnodes node hnode, hside⟩

theorem closureFrom (h : sides.Apart host) : ∀ (fuel : Nat) {seen : List Node}
    {queue : List (Node × Entry)} {found : List (Ref .record)},
      (∀ pair ∈ queue, sides.of pair.1.compartment = side ∧ pair.2.OnSide host sides side) →
        (∀ ref ∈ found, host.OnSide sides side ref) →
          ∀ ref ∈ host.closureFrom [] fuel seen queue found, host.OnSide sides side ref := by
  -- By induction on the steps of the search for a closure.
  intro fuel
  induction fuel with
  | zero => exact fun _ hfound ref hmem => hfound ref (List.mem_reverse.1 hmem)
  | succ fuel ih =>
    intro seen queue found hqueue hfound
    cases queue with
    | nil => exact fun ref hmem => hfound ref (List.mem_reverse.1 hmem)
    | cons first queue =>
      obtain ⟨node, entry⟩ := first
      obtain ⟨hnode, hentry⟩ := hqueue _ List.mem_cons_self
      unfold Host.closureFrom
      refine ih (fun pair hmem => ?_) fun ref hmem => ?_
      · rcases List.mem_append.1 hmem with hmem | hmem
        · exact hqueue pair (List.mem_cons_of_mem _ hmem)
        · refine h.entriesOf (fun next hnext => ?_) pair hmem
          exact hentry.continues hnode next (ClosureLoad.mem_of_mem_unseen hnext)
      · cases entry with
        | borrowed owner key record => exact hfound ref hmem
        | own record =>
          dsimp only at hmem
          split at hmem
          · exact hfound ref hmem
          · rcases List.mem_cons.1 hmem with rfl | hmem
            · exact hentry
            · exact hfound ref hmem

theorem closure (h : sides.Apart host) {root : Node} (hroot : sides.of root.compartment = side) :
    ∀ ref ∈ host.closure [] root, host.OnSide sides side ref := by
  have hroots : ∀ node ∈ [root], sides.of node.compartment = side := by
    intro node hmem
    obtain rfl := List.mem_singleton.1 hmem
    exact hroot
  exact h.closureFrom _ (h.entriesOf hroots) fun _ hmem => nomatch hmem

section
variable {refs : List (Ref .record)} (hrefs : ∀ ref ∈ refs, host.OnSide sides side ref)
include hrefs

theorem unitOf (h : sides.Apart host) {ref : Ref .record} {unit : LinkUnit}
    (hunit : (Batch.ofRecords host refs).unitOf ref = some unit) :
    ref ∈ refs ∧ unit = Batch.describe host ref := by
  rw [Batch.unitOf_ofRecords fun other hmem => ?_] at hunit
  · split at hunit
    · rename_i hmem
      cases hunit
      exact ⟨hmem, rfl⟩
    · cases hunit
  · rw [(h.record (hrefs other hmem)).1]
    rfl

theorem leads (h : sides.Apart host) {ref : Ref .record} {name : String} {origin : Origin}
    (hleads : (Batch.ofRecords host refs).Leads ref name origin) (href : host.OnSide sides side ref)
    {slot : Ref .slot} (hslot : origin = .slot slot) : host.OnSide sides side slot := by
  -- By induction on the way from a name to what it leads to.
  have htarget {ref target : Ref .record} {unit : LinkUnit} {source : String}
      (hunit : (Batch.ofRecords host refs).unitOf ref = some unit)
      (htarget : unit.target source = .ok target) : host.OnSide sides side target := by
    obtain ⟨hmem, rfl⟩ := h.unitOf hrefs hunit
    exact h.target (hrefs ref hmem) htarget
  induction hleads with
  | @outside ref name «exports» found hunit houtside hget =>
    cases hslot
    change Batch.exported host ref = .ok «exports» at houtside
    unfold Batch.exported at houtside
    dsimp only at houtside
    split at houtside
    · cases houtside
    · cases houtside
      exact h.space (h.record href).2.space name slot hget
  | found hunit hstep =>
    subst hslot
    cases LinkUnit.explicit_of_explicitStep hstep with
    | exportName _ hlocal => cases hlocal
    | exportAs _ hlocal => cases hlocal
  | forward hunit hstep _ ih =>
    obtain ⟨source, hsource⟩ := LinkUnit.target_of_exportStep hstep (.inl rfl)
    exact ih (htarget hunit hsource) hslot
  | @require _ _ _ _ source _ _ hunit hstep _ ih =>
    obtain ⟨source', hsource⟩ := LinkUnit.target_of_exportStep hstep (.inr ⟨source, rfl⟩)
    exact ih (htarget hunit hsource) hslot
  | star hunit _ _ htargets hmem _ ih =>
    obtain ⟨source, -, hsource⟩ := LinkUnit.mem_targets htargets _ hmem
    exact ih (htarget hunit hsource) hslot

/-- The slots in a wiring are on the side of the batch. -/
theorem wiring (h : sides.Apart host) {ref : Ref .record} (hmem : ref ∈ refs) {wiring : Wiring}
    (hwiring : (Batch.ofRecords host refs).wire (Batch.describe host ref) = .ok wiring) :
    ∀ name slot, (name, .slot slot) ∈ wiring.imports ++ wiring.exports →
      host.OnSide sides side slot := by
  intro name slot hpair
  have hwired := Batch.wired_of_wire hwiring
  have hfound {imported source : String}
      (horigin : (Batch.ofRecords host refs).importOrigin (Batch.describe host ref) imported source =
        .ok (.slot slot)) : host.OnSide sides side slot := by
    obtain ⟨target, htarget, hfound⟩ := Batch.Wired.importOrigin_ok horigin
    exact h.leads hrefs (Batch.leads_of_originOf hfound) (h.target (hrefs ref hmem) htarget) rfl
  rcases List.mem_append.1 hpair with hpair | hpair
  · obtain ⟨binding, -, hfrom⟩ := hwired.imports_from hpair
    cases binding with
    | importName imported source => exact hfound hfrom.2
    | importAs imported newName source => exact hfound hfrom.2
    | importAll newName source =>
      obtain ⟨-, target, -, heq⟩ := hfrom
      cases heq
    | exportName => exact hfrom.elim
    | exportAs => exact hfrom.elim
    | exportFrom => exact hfrom.elim
    | exportAll => exact hfrom.elim
    | exportAllAs => exact hfrom.elim
  · exact h.leads hrefs (Batch.leads_of_originOf (hwired.export_origin hpair)) (hrefs ref hmem) rfl

end

end Sides.Apart

/-- All slots made for a batch are on the acting side. -/
def Sides.Slots (sides : Sides) (host : Host) (slots : List (Ref .record × List (String × Ref .slot))) :
    Prop :=
  ∀ pair ∈ slots, ∀ named ∈ pair.2, host.OnSide sides sides.active named.2

theorem Sides.Slots.mono {slots : List (Ref .record × List (String × Ref .slot))}
    (hremains : Remains host host') (h : sides.Slots host slots) : sides.Slots host' slots :=
  fun pair hmem named hnamed => (h pair hmem named hnamed).mono hremains.born

namespace Act

open Fills

theorem forM_fills {f : Ref .record → Act Unit}
    (hf : ∀ {host ref}, sides.Apart host → sides.of ref = sides.active →
      (f ref).Fills sides host fun _ _ => True) :
    ∀ (refs : List (Ref .record)) {host : Host}, sides.Apart host →
      (∀ ref ∈ refs, sides.of ref = sides.active) → (refs.forM f).Fills sides host fun _ _ => True := by
  intro refs
  induction refs with
  | nil => exact fun h _ => .pure h trivial
  | cons ref rest ih =>
    intro host h hrefs
    refine (hf h (hrefs ref List.mem_cons_self)).bind fun _ _ hfills _ => ?_
    exact ih hfills.apart fun other hother => hrefs other (List.mem_cons_of_mem ref hother)

theorem newSlots_fills : ∀ (names : List String) {host : Host}, sides.Apart host →
    (onStore (newSlots names)).Fills sides host fun slots host' =>
      ∀ pair ∈ slots, host'.OnSide sides sides.active pair.2 := by
  intro names
  induction names with
  | nil => exact fun h => .pure h fun _ hmem => nomatch hmem
  | cons name rest ih =>
    intro host h
    unfold newSlots
    rw [onStore_bind]
    refine (newSlot_fills h none).bind fun slot made hmade hslot => ?_
    rw [onStore_bind]
    refine (ih hmade.apart).bind fun slots last hlast hslots => .pure hlast.apart fun pair hmem => ?_
    rcases List.mem_cons.1 hmem with rfl | hmem
    · exact hslot.mono hlast.remains.born
    · exact hslots pair hmem

theorem localSlots_fills : ∀ (units : List LinkUnit) {host : Host}, sides.Apart host →
    (localSlots units).Fills sides host fun slots host' => sides.Slots host' slots := by
  intro units
  induction units with
  | nil => exact fun h => .pure h fun _ hmem => nomatch hmem
  | cons unit rest ih =>
    intro host h
    refine (newSlots_fills unit.localNames h).bind fun named made hmade hnamed => ?_
    refine (ih hmade.apart).bind fun slots last hlast hslots => .pure hlast.apart fun pair hmem => ?_
    rcases List.mem_cons.1 hmem with rfl | hmem
    · exact fun found hfound => (hnamed found hfound).mono hlast.remains.born
    · exact hslots pair hmem

section
variable {slots : List (Ref .record × List (String × Ref .slot))}

theorem slotFor_fills (h : sides.Apart host) (hslots : sides.Slots host slots) {origin : Origin}
    (horigin : ∀ slot, origin = .slot slot → host.OnSide sides sides.active slot) :
    (slotFor slots origin).Fills sides host fun slot host' =>
      host'.OnSide sides sides.active slot := by
  cases origin with
  | slot slot => exact .pure h (horigin slot rfl)
  | «exports» record => exact .getBind (newSlot_fills h _)
  | localName record name =>
    unfold slotFor
    dsimp only
    split
    · rename_i slot hslot
      refine .pure h ?_
      unfold slotOf at hslot
      split at hslot
      · cases hslot
      · rename_i named hfind
        obtain ⟨pair, hpair, rfl⟩ := Option.map_eq_some_iff.1 hslot
        exact hslots _ (List.mem_of_find?_eq_some hfind) pair (List.mem_of_find?_eq_some hpair)
    · exact newSlot_fills h none

theorem slotsFor_fills : ∀ (wired : List (String × Origin)) {host : Host}, sides.Apart host →
    sides.Slots host slots →
      (∀ name slot, (name, .slot slot) ∈ wired → host.OnSide sides sides.active slot) →
        (slotsFor slots wired).Fills sides host fun named host' =>
          ∀ pair ∈ named, host'.OnSide sides sides.active pair.2 := by
  intro wired
  induction wired with
  | nil => exact fun h _ _ => .pure h fun _ hmem => nomatch hmem
  | cons first rest ih =>
    intro host h hslots hwired
    obtain ⟨name, origin⟩ := first
    have horigin : ∀ slot, origin = .slot slot → host.OnSide sides sides.active slot := by
      rintro slot rfl
      exact hwired name slot List.mem_cons_self
    refine (slotFor_fills h hslots horigin).bind fun slot made hmade hslot => ?_
    have hrest : ∀ name slot, (name, .slot slot) ∈ rest → made.OnSide sides sides.active slot :=
      fun name slot hmem =>
        (hwired name slot (List.mem_cons_of_mem _ hmem)).mono hmade.remains.born
    refine (ih hmade.apart (hslots.mono hmade.remains) hrest).bind fun named last hlast hnamed => ?_
    refine .pure hlast.apart fun pair hmem => ?_
    rcases List.mem_cons.1 hmem with rfl | hmem
    · exact hslot.mono hlast.remains.born
    · exact hnamed pair hmem

theorem defineAll_fills {space : Ref .exports} (hspace : sides.of space = sides.active) :
    ∀ (named : List (String × Ref .slot)) {host : Host}, sides.Apart host →
      (∀ pair ∈ named, host.OnSide sides sides.active pair.2) →
        (onStore (defineAll space named)).Fills sides host fun _ _ => True := by
  intro named
  induction named with
  | nil => exact fun h _ => .pure h trivial
  | cons first rest ih =>
    intro host h hnamed
    unfold defineAll
    rw [onStore_bind]
    refine (define_fills h hspace (hnamed first List.mem_cons_self) first.1).bind
      fun _ defined hdefined _ => ?_
    exact ih hdefined.apart fun pair hmem =>
      (hnamed pair (List.mem_cons_of_mem first hmem)).mono hdefined.remains.born

/-- A scope gets slots of the acting side. -/
theorem declared_onSide {declare : Environment → String × Ref .slot → Environment}
    (hdeclare : ∀ environment pair, environment.OnSide host sides sides.active →
      host.OnSide sides sides.active pair.2 →
        (declare environment pair).OnSide host sides sides.active) :
    ∀ (named : List (String × Ref .slot)) {environment : Environment},
      environment.OnSide host sides sides.active →
        (∀ pair ∈ named, host.OnSide sides sides.active pair.2) →
          (named.foldl declare environment).OnSide host sides sides.active := by
  intro named
  induction named with
  | nil => exact fun h _ => h
  | cons first rest ih =>
    intro environment h hnamed
    exact ih (hdeclare environment first h (hnamed first List.mem_cons_self))
      fun pair hmem => hnamed pair (List.mem_cons_of_mem first hmem)

theorem commit_fills (h : sides.Apart host) (hslots : sides.Slots host slots) {ref : Ref .record}
    (href : host.OnSide sides sides.active ref) {wiring : Wiring}
    (hwiring : ∀ name slot, (name, .slot slot) ∈ wiring.imports ++ wiring.exports →
      host.OnSide sides sides.active slot) :
    (commit slots ref wiring).Fills sides host fun _ _ => True := by
  unfold commit
  refine (slotsFor_fills wiring.imports h hslots fun name slot hmem =>
    hwiring name slot (List.mem_append_left _ hmem)).bind fun imports bound hbound himports => ?_
  refine (slotsFor_fills wiring.exports hbound.apart (hslots.mono hbound.remains)
    fun name slot hmem => (hwiring name slot (List.mem_append_right _ hmem)).mono
      hbound.remains.born).bind fun named ready hready hnamed => ?_
  have hsince := hbound.remains.trans hready.remains
  refine (changeRecord_fills hready.apart href.2 fun record hrecord => ?_).bind
    fun _ changed hchanged _ => ?_
  · refine ⟨hrecord.home, hrecord.space, ?_, hrecord.ready⟩
    refine declared_onSide (fun environment pair henvironment hpair =>
      henvironment.declareImport pair.1 hpair) imports ?_ fun pair hmem =>
        (himports pair hmem).mono hready.remains.born
    refine declared_onSide (fun environment pair henvironment hpair =>
      henvironment.declareLocal pair.1 hpair) _ hrecord.slots fun pair hmem => ?_
    split at hmem
    · rename_i hfind
      exact (hslots _ (List.mem_of_find?_eq_some hfind) pair hmem).mono hsince.born
    · cases hmem
  · have hspace := (hchanged.apart.record (href.mono (hsince.trans hchanged.remains).born)).2.space
    refine .getBind ((defineAll_fills hspace.2 named hchanged.apart fun pair hmem =>
      (hnamed pair hmem).mono hchanged.remains.born).bind fun _ defined hdefined _ => ?_)
    exact advance_fills hdefined.apart href.2 .linked

theorem commitAll_fills (failed : List (Ref .record × Failure)) :
    ∀ (wirings : List (LinkUnit × Except Failure Wiring)) {host : Host}, sides.Apart host →
      sides.Slots host slots → (∀ pair ∈ wirings, host.OnSide sides sides.active pair.1.record ∧
        ∀ wiring, pair.2 = .ok wiring → ∀ name slot,
          (name, .slot slot) ∈ wiring.imports ++ wiring.exports →
            host.OnSide sides sides.active slot) →
      (commitAll slots failed wirings).Fills sides host fun _ _ => True := by
  -- By induction on the records that are left.
  intro wirings
  induction wirings with
  | nil => exact fun h _ _ => .pure h trivial
  | cons first rest ih =>
    intro host h hslots hwirings
    obtain ⟨unit, wiring⟩ := first
    obtain ⟨href, hwiring⟩ := hwirings _ List.mem_cons_self
    have hsettle : (settle slots failed unit wiring).Fills sides host fun _ _ => True := by
      unfold settle
      split
      · exact fail_fills h href.2 _
      · exact commit_fills h hslots href (hwiring _ rfl)
      · exact fail_fills h href.2 _
    refine hsettle.bind fun _ settled hsettled _ => ?_
    refine ih hsettled.apart (hslots.mono hsettled.remains) fun pair hmem => ?_
    obtain ⟨href, hwiring⟩ := hwirings pair (List.mem_cons_of_mem _ hmem)
    refine ⟨href.mono hsettled.remains.born, fun wiring heq name slot hslot => ?_⟩
    exact (hwiring wiring heq name slot hslot).mono hsettled.remains.born

end

theorem link_fills (h : sides.Apart host) {refs : List (Ref .record)}
    (hrefs : ∀ ref ∈ refs, host.OnSide sides sides.active ref) :
    (link refs).Fills sides host fun _ _ => True := by
  unfold link
  split
  · exact .pure h trivial
  · refine (forM_fills (fun h href => advance_fills h href .linking) refs h
      fun ref hmem => (hrefs ref hmem).2).bind fun _ begun hbegun _ => .getBind ?_
    have hbatch : ∀ ref ∈ refs, begun.OnSide sides sides.active ref :=
      fun ref hmem => (hrefs ref hmem).mono hbegun.remains.born
    dsimp only
    refine (localSlots_fills _ hbegun.apart).bind fun slots made hmade hslots => ?_
    refine commitAll_fills _ _ hmade.apart hslots fun pair hmem => ?_
    obtain ⟨unit, hunit, rfl⟩ := List.mem_map.1 hmem
    obtain ⟨ref, href, rfl⟩ := List.mem_map.1 hunit
    refine ⟨(hbatch ref href).mono hmade.remains.born, fun wiring heq name slot hslot => ?_⟩
    exact (hbegun.apart.wiring hbatch href heq name slot hslot).mono hmade.remains.born

/-- Linking what a key of the acting side leads to. -/
theorem linkClosure_fills (h : sides.Apart host) {root : Node}
    (hroot : sides.of root.compartment = sides.active) :
    (linkClosure root).Fills sides host fun _ _ => True := by
  refine .getBind ((mark_fills h _).bind fun _ marked hmarked _ => ?_)
  refine link_fills hmarked.apart fun ref hmem => ?_
  exact (h.closure hroot ref (List.mem_filter.1 hmem).1).mono hmarked.remains.born

end Act

end ModuleLoader
