import ModuleLoader.Proofs.LinkingBatches
import ModuleLoader.Proofs.Setups
import ModuleLoader.Proofs.StarExports
/-!
What stars forward once a batch has been linked: the names that the namespaces of their targets have,
the last declared first.
-/

namespace ModuleLoader
set_option autoImplicit false

namespace Host

/-- The namespace of a record has a name. -/
def HasExport (host : Host) (ref : Ref .record) (name : String) : Prop :=
  (host.slotAt? (.exports (host.record ref).space name)).isSome

/-- Two places have one slot, or slots that hold one namespace. -/
def Agree (host : Host) (place other : Place) : Prop :=
  ∃ slot slot', host.slotAt? place = some slot ∧ host.slotAt? other = some slot' ∧
    (slot = slot' ∨ ∃ space, host.store.slot? slot = some (.exports space) ∧
      host.store.slot? slot' = some (.exports space))

/-- What a record has to forward while `refs` are linked: one of `refs` what its namespace has in the
end, and any other one what its namespace had before. -/
def Forwards (host host' : Host) (refs : List (Ref .record)) (ref : Ref .record) (name : String) :
    Prop :=
  if refs.contains ref then host'.HasExport ref name else host.HasExport ref name

instance (host : Host) (ref : Ref .record) (name : String) : Decidable (host.HasExport ref name) :=
  inferInstanceAs (Decidable (_ = true))

instance (host host' : Host) (refs : List (Ref .record)) (ref : Ref .record) (name : String) :
    Decidable (host.Forwards host' refs ref name) :=
  inferInstanceAs (Decidable
    (if refs.contains ref then host'.HasExport ref name else host.HasExport ref name))

theorem forwards_of_mem {host host' : Host} {refs : List (Ref .record)} {ref : Ref .record}
    {name : String} (h : ref ∈ refs) :
    host.Forwards host' refs ref name ↔ host'.HasExport ref name := by
  unfold Forwards
  rw [if_pos (List.contains_iff_mem.2 h)]

theorem forwards_of_notMem {host host' : Host} {refs : List (Ref .record)} {ref : Ref .record}
    {name : String} (h : ref ∉ refs) :
    host.Forwards host' refs ref name ↔ host.HasExport ref name := by
  unfold Forwards
  rw [if_neg fun hmem => h (List.contains_iff_mem.1 hmem)]

end Host

/-- Slots of one origin agree. -/
theorem Act.Realises.agree {slots : List (Ref .record × List (String × Ref .slot))}
    {start host : Host} {place other : Place} 
    {slot slot' : Ref .slot} {origin : Origin} (hslot : host.slotAt? place = some slot)
    (hrealises : Realises slots start host origin slot) (hslot' : host.slotAt? other = some slot')
    (hrealises' : Realises slots start host origin slot') : host.Agree place other := by
  refine ⟨slot, slot', hslot, hslot', ?_⟩
  cases origin with
  | slot found => exact .inl (hrealises.trans hrealises'.symm)
  | localName record name => exact .inl (Option.some.inj (hrealises.symm.trans hrealises'))
  | exports record =>
    refine .inr ⟨(start.record record).space, ?_, ?_⟩
    · exact congrArg (Option.getD · none) hrealises.2
    · exact congrArg (Option.getD · none) hrealises'.2

namespace Begins

variable {host before : Host} {refs : List (Ref .record)}

theorem space (h : Begins host before refs) (ref : Ref .record) :
    (before.record ref).space = (host.record ref).space := by
  by_cases hmem : ref ∈ refs
  · obtain ⟨record, hrecord, -, hrecord'⟩ := h.begun ref hmem
    unfold Host.record
    rw [hrecord, hrecord']
    rfl
  · unfold Host.record
    rw [h.others ref hmem]

theorem hasExport (h : Begins host before refs) (ref : Ref .record) (name : String) :
    before.HasExport ref name ↔ host.HasExport ref name := by
  unfold Host.HasExport
  rw [Host.slotAt?_exports, Host.slotAt?_exports, h.space, h.rest]

theorem lookup? (h : Begins host before refs) (node : Node) :
    before.lookup? node = host.lookup? node := by
  rw [h.rest]
  rfl

theorem describe (h : Begins host before refs) (ref : Ref .record) :
    Batch.describe before ref = Batch.describe host ref := by
  have hcompartment : before.compartment = host.compartment := by
    rw [h.rest]
    rfl
  have hlookup : before.lookup? = host.lookup? := funext h.lookup?
  unfold Batch.describe
  rw [hcompartment, hlookup]
  by_cases hmem : ref ∈ refs
  · obtain ⟨record, hrecord, -, hrecord'⟩ := h.begun ref hmem
    have hold : host.record ref = record := congrArg (Option.getD · default) hrecord
    have hnew : before.record ref = { record with phase := .linking } :=
      congrArg (Option.getD · default) hrecord'
    rw [hold, hnew]
    rfl
  · have hsame : before.record ref = host.record ref :=
      congrArg (Option.getD · default) (h.others ref hmem)
    rw [hsame]

theorem exported (h : Begins host before refs) (ref : Ref .record) :
    Batch.exported before ref = Batch.exported host ref := by
  have hstore : before.store = host.store := by rw [h.rest]
  unfold Batch.exported
  rw [hstore]
  by_cases hmem : ref ∈ refs
  · obtain ⟨record, hrecord, hphase, hrecord'⟩ := h.begun ref hmem
    have hold : host.record ref = record := congrArg (Option.getD · default) hrecord
    have hnew : before.record ref = { record with phase := .linking } :=
      congrArg (Option.getD · default) hrecord'
    rw [hold, hnew]
    simp [hphase]
  · have hsame : before.record ref = host.record ref :=
      congrArg (Option.getD · default) (h.others ref hmem)
    rw [hsame]

/-- Linking looks at the same batch before its records begin to be linked. -/
theorem ofRecords (h : Begins host before refs) :
    Batch.ofRecords before refs = Batch.ofRecords host refs := by
  have hunits : refs.map (Batch.describe before) = refs.map (Batch.describe host) :=
    List.map_congr_left fun ref _ => h.describe ref
  have hunitOf : (Batch.ofRecords before refs).unitOf = (Batch.ofRecords host refs).unitOf := by
    funext ref
    rw [Batch.unitOf_ofRecords fun ref hmem => ?_, Batch.unitOf_ofRecords fun ref hmem => ?_,
      h.describe]
    · obtain ⟨record, hrecord, -⟩ := h.begun ref hmem
      rw [hrecord]
      rfl
    · obtain ⟨record, -, -, hrecord⟩ := h.begun ref hmem
      rw [hrecord]
      rfl
  have houtside : (Batch.ofRecords before refs).outside = (Batch.ofRecords host refs).outside :=
    funext h.exported
  calc Batch.ofRecords before refs
      = ⟨refs.map (Batch.describe before), (Batch.ofRecords before refs).unitOf,
          (Batch.ofRecords before refs).outside⟩ := rfl
    _ = ⟨refs.map (Batch.describe host), (Batch.ofRecords host refs).unitOf,
          (Batch.ofRecords host refs).outside⟩ := by rw [hunits, hunitOf, houtside]
    _ = Batch.ofRecords host refs := rfl

end Begins

namespace LinkUnit

theorem targets_append {unit : LinkUnit} {more : List String} :
    ∀ {specifiers : List String} {targets : List (Ref .record)},
      unit.targets (specifiers ++ more) = .ok targets → ∃ first last,
        unit.targets specifiers = .ok first ∧ unit.targets more = .ok last ∧ targets = first ++ last
  | [], targets, h => ⟨[], targets, rfl, h, rfl⟩
  | specifier :: rest, targets, h => by
    rw [List.cons_append, LinkUnit.targets] at h
    cases htarget : unit.target specifier with
    | error failure =>
      rw [htarget] at h
      cases h
    | ok record =>
      rw [htarget] at h
      dsimp only at h
      cases hrest : unit.targets (rest ++ more) with
      | error failure =>
        rw [hrest] at h
        cases h
      | ok records =>
        rw [hrest] at h
        cases h
        obtain ⟨first, last, hfirst, hlast, rfl⟩ := targets_append hrest
        refine ⟨record :: first, last, ?_, hlast, rfl⟩
        rw [LinkUnit.targets, htarget]
        dsimp only
        rw [hfirst]

theorem mem_targets_of_target {unit : LinkUnit} : ∀ {specifiers : List String}
    {targets : List (Ref .record)}, unit.targets specifiers = .ok targets →
      ∀ {specifier : String} {target : Ref .record}, specifier ∈ specifiers →
        unit.target specifier = .ok target → target ∈ targets
  | first :: rest, targets, h, specifier, target, hmem, htarget => by
    unfold LinkUnit.targets at h
    cases hfirst : unit.target first with
    | error failure =>
      rw [hfirst] at h
      cases h
    | ok record =>
      rw [hfirst] at h
      dsimp only at h
      cases hrest : unit.targets rest with
      | error failure =>
        rw [hrest] at h
        cases h
      | ok records =>
        rw [hrest] at h
        cases h
        rcases List.mem_cons.1 hmem with rfl | hmem
        · rw [htarget] at hfirst
          cases hfirst
          exact List.mem_cons_self
        · exact List.mem_cons_of_mem _ (mem_targets_of_target hrest hmem htarget)

theorem mem_stars {bindings : List Binding} {source : String} :
    source ∈ (bindings.filterMap fun
      | .exportAll source => some source
      | _ => none) ↔ .exportAll source ∈ bindings := by
  rw [List.mem_filterMap]
  constructor
  · rintro ⟨binding, hmem, heq⟩
    cases binding <;> cases heq
    exact hmem
  · exact fun hmem => ⟨_, hmem, rfl⟩

end LinkUnit

namespace Act.Links

variable {before start host : Host} {refs : List (Ref .record)}
  {slots : List (Ref .record × List (String × Ref .slot))}

theorem mem_refs_iff (h : Links before start host refs slots) {ref : Ref .record} :
    ref ∈ refs ↔ (Batch.ofRecords before refs).unitOf ref ≠ none := by
  rw [Batch.unitOf_ofRecords h.exist]
  split
  · rename_i hmem
    exact ⟨fun _ => Option.some_ne_none _, fun _ => hmem⟩
  · rename_i hmem
    exact ⟨fun hmem' => absurd hmem' hmem, fun hne => absurd rfl hne⟩

/-- A record that stands exports what a search finds on it. -/
theorem originOf_iff (h : Links before start host refs slots) {target : Ref .record}
    (htarget : (Batch.ofRecords before refs).Stands target) (name : String) :
    (∃ origin, (Batch.ofRecords before refs).originOf target name = .ok (some origin)) ↔
      before.Forwards host refs target name := by
  rcases htarget with ⟨unit, wiring, hcommits, rfl⟩ | ⟨hunit, exports, hexports⟩
  · rw [Host.forwards_of_mem (mem_refs hcommits.mem).1]
    unfold Host.HasExport
    constructor
    · rintro ⟨origin, horigin⟩
      obtain ⟨slot, hslot, -⟩ :=
        h.export_realised (.inl ⟨unit, wiring, hcommits, rfl⟩) horigin
      rw [hslot]
      rfl
    · intro hsome
      obtain ⟨slot, hslot⟩ := Option.isSome_iff_exists.1 hsome
      obtain ⟨origin, hmem, -⟩ := (h.committed hcommits).1.exported name slot hslot
      exact ⟨origin, (Batch.wired_of_wire hcommits.wired).export_origin hmem⟩
  · rw [Host.forwards_of_notMem fun hmem => h.mem_refs_iff.1 hmem hunit]
    unfold Host.HasExport Batch.originOf
    rw [Batch.search_exported hunit hexports, outside_ok hexports, Host.slotAt?_exports]
    cases (before.store.space (before.record target).space).exports.get? name with
    | none => exact ⟨fun ⟨_, heq⟩ => (by cases heq), fun hsome => (by cases hsome)⟩
    | some slot => exact ⟨fun _ => rfl, fun _ => ⟨.slot slot, rfl⟩⟩

variable {unit : LinkUnit} {wiring : Wiring}

/-- The targets of the stars of a committed record stand. -/
theorem stars_stand (h : Links before start host refs slots)
    (hcommits : (Batch.ofRecords before refs).Commits unit wiring) :
    ∃ targets, unit.starRecords = .ok targets ∧
      ∀ target ∈ targets, (Batch.ofRecords before refs).Stands target := by
  obtain ⟨names, hnames, -⟩ := (Batch.wired_of_wire hcommits.wired).exports
  unfold Batch.exportableNames at hnames
  cases htargets : unit.starRecords with
  | error failure =>
    rw [htargets] at hnames
    cases hnames
  | ok targets =>
    refine ⟨targets, rfl, fun target hmem => ?_⟩
    obtain ⟨specifier, -, htarget⟩ := LinkUnit.mem_targets htargets target hmem
    exact h.answers hcommits htarget

variable {name : String} (hexplicit : ∀ binding ∈ unit.bindings, binding.exportedName? ≠ some name)

include hexplicit in
/-- The stars of a committed record forward what their targets have, but for the reserved name. -/
theorem forwards_iff (h : Links before start host refs slots)
    (hcommits : (Batch.ofRecords before refs).Commits unit wiring) :
    host.HasExport unit.record name ↔ name ≠ unit.defaultExport ∧
      ∃ source target, .exportAll source ∈ unit.bindings ∧ unit.target source = .ok target ∧
        before.Forwards host refs target name := by
  have hunit := h.proper.unitOf unit hcommits.mem
  have hstep : unit.exportStep name = .ok none := LinkUnit.explicitStep_eq_none hexplicit
  have hstands : (Batch.ofRecords before refs).Stands unit.record :=
    .inl ⟨unit, wiring, hcommits, rfl⟩
  have hown := h.originOf_iff hstands name
  rw [Host.forwards_of_mem (mem_refs hcommits.mem).1] at hown
  rw [← hown]
  by_cases hname : name = unit.defaultExport
  · rw [Batch.originOf_reserved hunit hstep hname]
    exact ⟨fun ⟨_, heq⟩ => (by cases heq), fun ⟨hne, _⟩ => absurd hname hne⟩
  obtain ⟨targets, htargets, hall⟩ := h.stars_stand hcommits
  rw [Batch.originOf_star_iff h.proper hunit hstep hname htargets (hstands.answers h.proper)
    fun target hmem => (hall target hmem).answers h.proper]
  constructor
  · rintro ⟨target, hmem, horigin⟩
    obtain ⟨source, hsource, htarget⟩ := LinkUnit.mem_targets htargets target hmem
    exact ⟨hname, source, target, LinkUnit.mem_stars.1 hsource, htarget,
      (h.originOf_iff (hall target hmem) name).1 horigin⟩
  · rintro ⟨-, source, target, hsource, htarget, hforwards⟩
    have hmem := LinkUnit.mem_targets_of_target htargets (LinkUnit.mem_stars.2 hsource) htarget
    exact ⟨target, hmem, (h.originOf_iff (hall target hmem) name).2 hforwards⟩

include hexplicit in
/-- Of the targets that have a name the last declared one gives it, if its own search for the name does
not come back. -/
theorem forwards_last (h : Links before start host refs slots)
    (hcommits : (Batch.ofRecords before refs).Commits unit wiring)
    {earlier later : List Binding} {source : String} {target : Ref .record}
    (hbindings : unit.bindings = earlier ++ .exportAll source :: later)
    (htarget : unit.target source = .ok target) (hforwards : before.Forwards host refs target name)
    (hlater : ∀ source' target', .exportAll source' ∈ later → unit.target source' = .ok target' →
      ¬ before.Forwards host refs target' name)
    (hname : name ≠ unit.defaultExport)
    (hback : (unit.record, name) ∉ (Batch.ofRecords before refs).looksAt target name) :
    host.Agree (.exports (host.record unit.record).space name)
      (.exports (host.record target).space name) := by
  have hunit := h.proper.unitOf unit hcommits.mem
  have hstep : unit.exportStep name = .ok none := LinkUnit.explicitStep_eq_none hexplicit
  obtain ⟨targets, htargets, hall⟩ := h.stars_stand hcommits
  have hsplit := htargets
  unfold LinkUnit.starRecords LinkUnit.stars at hsplit
  rw [hbindings, List.filterMap_append] at hsplit
  obtain ⟨first, last, -, hlast, rfl⟩ := LinkUnit.targets_append hsplit
  change unit.targets (source :: _) = .ok last at hlast
  unfold LinkUnit.targets at hlast
  rw [htarget] at hlast
  dsimp only at hlast
  split at hlast
  · cases hlast
  rename_i after hafter
  cases hlast
  have hstands := hall target (List.mem_append_right _ List.mem_cons_self)
  obtain ⟨origin, horigin⟩ := (h.originOf_iff hstands name).2 hforwards
  have hown := Batch.originOf_star_last h.proper hunit hstep hname htargets rfl horigin
    (fun other hmem => ?_) hback
  · obtain ⟨slot, hslot, hrealises⟩ :=
      h.export_realised (.inl ⟨unit, wiring, hcommits, rfl⟩) hown
    obtain ⟨slot', hslot', hrealises'⟩ := h.export_realised hstands horigin
    exact Realises.agree hslot hrealises hslot' hrealises'
  · -- A later target does not have the name, so a search for it there is lost.
    have hother := hall other (List.mem_append_right _ (List.mem_cons_of_mem _ hmem))
    refine ((hother.answers h.proper).exports_or_lost h.proper name).resolve_left fun hfound => ?_
    obtain ⟨source', hsource, htarget'⟩ := LinkUnit.mem_targets hafter other hmem
    exact hlater source' other (LinkUnit.mem_stars.1 hsource) htarget'
      ((h.originOf_iff hother name).1 hfound)

end Act.Links

namespace Act

end Act

/-- A ring of two modules that forward from each other, each with a module beside it, and a module
that forwards from both of these. -/
def starRing : Host :=
  (Act.loadNow ⟨⟨0⟩, "main"⟩ (Act.newCompartment (.simple "ring"
    [("main", ChainKind.moduleOf [.exportAll "left", .exportAll "right", .importAll "one" "one"] none),
     ("one", ChainKind.moduleOf [.exportAll "left", .exportAll "other"] none),
     ("other", ChainKind.moduleOf [.exportAll "right", .exportAll "one"] none),
     ("left", ChainKind.moduleOf [.exportName "x"] none),
     ("right", ChainKind.moduleOf [.exportName "x"] none)]) default).2).2

/-- A module that forwards from one exposing the namespace of a third, which is loaded. -/
def starExposure : Host :=
  let host := (Act.newCompartment (.simple "inner" [("x", ChainKind.moduleOf [.exportName "x"] none)])
    default).2
  let host := (Act.loadNow ⟨⟨0⟩, "x"⟩ host).2
  let host := (Act.newCompartment (.simple "outer"
    [("main", ChainKind.moduleOf [.exportAll "y", .importAll "x" "x"] none),
     ("x", .redirect "x" (some "inner")),
     ("y", .exports (.exportsOf "inner" "x"))]) host).2
  (Act.loadNow ⟨⟨1⟩, "main"⟩ host).2

theorem starRing_sound : starRing.Sound :=
  (Act.loadNow_sound (Act.newCompartment_sound Host.fresh_sound _).1 (by decide +kernel)).1

/-- The ring, linked. -/
def linkedRing : Host := starRing.linkedFrom ⟨⟨0⟩, "main"⟩

/-- The module that forwards from an exposed namespace, linked. -/
def linkedExposure : Host := starExposure.linkedFrom ⟨⟨1⟩, "main"⟩

namespace Act

end Act

end ModuleLoader
