import ModuleLoader.Execution.Bodies
import ModuleLoader.Proofs.LinkingBatches
/-!
A body assigns a name of its own scope: imported names refuse, and what is read changes only where
names lead to the one assigned.
-/

namespace ModuleLoader
set_option autoImplicit false

/-- What reading a place gives. -/
def Host.reading (host : Host) : Place → Except Failure Value
  | .scope record name => (host.record record).environment.read host.store name
  | .exports space name => host.store.readExport space name

/-- A record got a value under one of its names: in the slot it may assign there, or else in a new
one. -/
structure Assigned (host host' : Host) (ref : Ref .record) (name : String) (slot : Ref .slot) :
    Prop where
  rest : host' = { host with
    store := { host.store with slots := host'.store.slots }
    records := host'.records }
  records : ∀ other record, host.records.get? other = some record → ∃ environment,
    host'.records.get? other = some { record with environment }
  absent : ∀ other, host.records.get? other = none → host'.records.get? other = none
  others : ∀ other, other ≠ ref → (host'.record other).environment = (host.record other).environment
  scope : ∀ own, (host'.record ref).environment.bounds.get? own =
    if own = name then some ⟨slot, true⟩ else (host.record ref).environment.bounds.get? own
  slots : ∀ other, other ≠ slot → host'.store.slots.get? other = host.store.slots.get? other
  there : (host'.store.slots.get? slot).isSome
  own : host.Owns ref name slot ∨
    (host.record ref).environment.bounds.get? name = none ∧ host.store.slots.get? slot = none

namespace Assigned

variable {host host' : Host} {ref : Ref .record} {name : String} {slot : Ref .slot}

theorem chronicle (h : Assigned host host' ref name slot) : host'.chronicle = host.chronicle := by
  rw [h.rest]

theorem linked (h : Assigned host host' ref name slot) (other : Ref .record) :
    host'.Linked other ↔ host.Linked other := by
  unfold Host.Linked
  rw [h.chronicle]

theorem spaces (h : Assigned host host' ref name slot) :
    host'.store.spaces = host.store.spaces := by
  rw [h.rest]

theorem loads (h : Assigned host host' ref name slot) : LoadsAlike host host' := by
  refine ⟨by rw [h.rest], by rw [h.rest], by rw [h.rest], by rw [h.rest], fun other hother => ?_,
    fun node target hmem => h.chronicle ▸ hmem⟩
  obtain ⟨record, hrecord⟩ := Option.isSome_iff_exists.1 hother
  obtain ⟨environment, hget⟩ := h.records other record hrecord
  rw [hget]
  rfl

theorem later (h : Assigned host host' ref name slot) : Later host host' :=
  h.loads.later (fun other record hrecord =>
    let ⟨_, hget⟩ := h.records other record hrecord
    ⟨_, hget, rfl, .inl rfl⟩) (h.chronicle ▸ List.suffix_refl _)

theorem record_back (h : Assigned host host' ref name slot) {other : Ref .record}
    {record' : Record} (hrecord : host'.records.get? other = some record') :
    ∃ record environment, host.records.get? other = some record ∧
      record' = { record with environment } := by
  cases hother : host.records.get? other with
  | none =>
    rw [h.absent other hother] at hrecord
    cases hrecord
  | some record =>
    obtain ⟨environment, hget⟩ := h.records other record hother
    exact ⟨record, environment, rfl, Option.some.inj (hrecord.symm.trans hget)⟩

theorem bounds (h : Assigned host host' ref name slot) (other : Ref .record) (own : String) :
    (host'.record other).environment.bounds.get? own = if other = ref ∧ own = name then
      some ⟨slot, true⟩ else (host.record other).environment.bounds.get? own := by
  by_cases hother : other = ref
  · subst hother
    rw [h.scope]
    simp
  · rw [h.others other hother, if_neg fun hsame => hother hsame.1]

theorem owns_iff (h : Assigned host host' ref name slot) {other : Ref .record} {own : String}
    {found : Ref .slot} : host'.Owns other own found ↔
      (other = ref ∧ own = name ∧ found = slot) ∨ host.Owns other own found := by
  unfold Host.Owns
  rw [h.bounds]
  split
  · rename_i hsame
    obtain ⟨rfl, rfl⟩ := hsame
    refine ⟨fun heq => ?_, ?_⟩
    · cases heq
      exact .inl ⟨rfl, rfl, rfl⟩
    · rintro (⟨-, -, rfl⟩ | howns)
      · rfl
      · rcases h.own with hown | ⟨hnone, -⟩
        · exact hown.symm.trans howns
        · rw [hnone] at howns
          cases howns
  · rename_i hother
    exact ⟨.inr, fun howns => howns.resolve_left fun heq => hother ⟨heq.1, heq.2.1⟩⟩

/-- A place has the slot that it had, but the one that was assigned has the slot of the value. -/
theorem slotAt?_eq (h : Assigned host host' ref name slot) (place : Place) :
    (place = .scope ref name ∧ host'.slotAt? place = some slot) ∨
      place ≠ .scope ref name ∧ host'.slotAt? place = host.slotAt? place := by
  cases place with
  | scope other own =>
    rw [Host.slotAt?_scope, Host.slotAt?_scope]
    unfold Environment.slot?
    rw [h.bounds]
    split
    · rename_i hsame
      obtain ⟨rfl, rfl⟩ := hsame
      exact .inl ⟨rfl, rfl⟩
    · rename_i hother
      refine .inr ⟨fun heq => hother ?_, rfl⟩
      cases heq
      exact ⟨rfl, rfl⟩
  | exports space own =>
    refine .inr ⟨(fun heq => nomatch heq), ?_⟩
    rw [Host.slotAt?_exports, Host.slotAt?_exports]
    unfold Store.space
    rw [h.spaces]

theorem slotAt? (h : Assigned host host' ref name slot) {place : Place} {found : Ref .slot}
    (hfound : host.slotAt? place = some found) : host'.slotAt? place = some found := by
  rcases h.slotAt?_eq place with ⟨rfl, hslot⟩ | ⟨-, hslot⟩
  · rcases h.own with hown | ⟨hnone, -⟩
    · rw [Host.slotAt?_of_owns hown] at hfound
      rw [hslot, hfound]
    · rw [Host.slotAt?_scope] at hfound
      unfold Environment.slot? at hfound
      rw [hnone] at hfound
      cases hfound
  · rw [hslot, hfound]

theorem isSome (h : Assigned host host' ref name slot) {found : Ref .slot}
    (hfound : (host.store.slots.get? found).isSome) : (host'.store.slots.get? found).isSome := by
  by_cases hsame : found = slot
  · exact hsame ▸ h.there
  · rw [h.slots found hsame]
    exact hfound

theorem holds (h : Assigned host host' ref name slot) {found : Ref .slot} {space : Ref .exports}
    (hholds : host.Holds found space) : host'.Holds found space := by
  obtain ⟨hheld, hnot⟩ := hholds
  have hne : found ≠ slot := by
    rintro rfl
    rcases h.own with hown | ⟨-, hnone⟩
    · exact hnot ref name hown
    · rw [hnone] at hheld
      cases hheld
  refine ⟨(h.slots found hne).trans hheld, fun other own howns => ?_⟩
  rcases h.owns_iff.1 howns with ⟨-, -, heq⟩ | howns
  · exact hne heq
  · exact hnot other own howns

theorem tidy (h : Assigned host host' ref name slot) (htidy : host.Tidy) : host'.Tidy := by
  refine ⟨fun other record hrecord => ?_, fun other record hrecord hsource => ?_,
    fun other hother => ?_, fun other record hrecord hsource => ?_, ?_,
    fun place found hfound => ?_⟩
  · obtain ⟨old, environment, hold, rfl⟩ := h.record_back hrecord
    exact h.later.keeps.built _ (htidy.homes other old hold)
  · obtain ⟨old, environment, hold, rfl⟩ := h.record_back hrecord
    exact htidy.exposed other old hold hsource
  · obtain ⟨record, hrecord, hsource, hrank⟩ := htidy.linked other ((h.linked other).1 hother)
    obtain ⟨environment, hget⟩ := h.records other record hrecord
    exact ⟨_, hget, hsource, hrank⟩
  · obtain ⟨old, environment, hold, rfl⟩ := h.record_back hrecord
    obtain ⟨space, hspace, hempty⟩ := htidy.spaces other old hold hsource
    exact ⟨space, h.spaces ▸ hspace, fun hnot => hempty fun hyes => hnot ((h.linked other).2 hyes)⟩
  · intro one other record record' hrecord hrecord' hsource hsource' hspace
    obtain ⟨old, environment, hold, rfl⟩ := h.record_back hrecord
    obtain ⟨old', environment', hold', rfl⟩ := h.record_back hrecord'
    exact htidy.distinct one other old old' hold hold' hsource hsource' hspace
  · rcases h.slotAt?_eq place with ⟨-, hslot⟩ | ⟨-, hslot⟩
    · rw [hslot] at hfound
      cases hfound
      exact h.there
    · exact h.isSome (htidy.slots place found (hslot ▸ hfound))

/-- A slot that was there when it was assigned was the name's own. -/
theorem owns_of_there (h : Assigned host host' ref name slot) (hlive : host.BindingsLive) {place : Place}
    (hthere : host.slotAt? place = some slot) : host.Owns ref name slot := by
  rcases h.own with hown | ⟨-, hnone⟩
  · exact hown
  · have hsome := hlive.slots place slot hthere
    rw [hnone] at hsome
    cases hsome

theorem bindingsLive (h : Assigned host host' ref name slot) (hloads : host.LoadsInOrder)
    (hlive : host.BindingsLive) (hlinked : host.Linked ref) : host'.BindingsLive := by
  refine ⟨h.tidy hlive.toTidy, fun other hnot => ?_,
    fun one other own own' found howns howns' => ?_,
    fun other own found place howns hfound => ?_, fun other hother binding hmem => ?_,
    fun other hother own => ?_⟩
  · rw [h.others other fun heq => hnot ((h.linked other).2 (heq ▸ hlinked))]
    exact hlive.scope other fun hother => hnot ((h.linked other).2 hother)
  · have hnew {other : Ref .record} {own : String} (howns : host.Owns other own slot) :
        host.Owns ref name slot :=
      h.owns_of_there hlive (Host.slotAt?_of_owns howns)
    rcases h.owns_iff.1 howns with ⟨rfl, rfl, rfl⟩ | hone
    · rcases h.owns_iff.1 howns' with ⟨rfl, rfl, -⟩ | hother
      · exact ⟨rfl, rfl⟩
      · exact hlive.owner _ _ _ _ _ (hnew hother) hother
    · rcases h.owns_iff.1 howns' with ⟨rfl, rfl, rfl⟩ | hother
      · exact hlive.owner _ _ _ _ _ hone (hnew hone)
      · exact hlive.owner _ _ _ _ _ hone hother
  · have hold (hplace : host.slotAt? place = some found) (howns : host.Owns other own found) :
        host'.Leads other own place :=
      h.later.leads hloads hlive.homes (hlive.leads other own found place howns hplace)
    rcases h.slotAt?_eq place with ⟨rfl, hslot⟩ | ⟨-, hslot⟩
    · rw [hslot] at hfound
      cases hfound
      rcases h.owns_iff.1 howns with ⟨rfl, rfl, -⟩ | howns
      · exact .own
      · have hown := h.owns_of_there hlive (Host.slotAt?_of_owns howns)
        exact hold (Host.slotAt?_of_owns hown) howns
    · rw [hslot] at hfound
      rcases h.owns_iff.1 howns with ⟨rfl, rfl, rfl⟩ | howns
      · exact hold hfound (h.owns_of_there hlive hfound)
      · exact hold hfound howns
  · have hother := (h.linked other).1 hother
    obtain ⟨record, hrecord, -⟩ := hlive.linked other hother
    have hisSome : (host.records.get? other).isSome := hrecord ▸ rfl
    rw [(h.later.record hisSome).bindings] at hmem
    exact h.later.means hloads hmem (fun _ _ => h.slotAt?) (fun _ _ _ => h.slotAt?)
      (fun _ _ => h.holds) (hlive.means other hother binding hmem)
  · have hother := (h.linked other).1 hother
    obtain ⟨record, hrecord, -⟩ := hlive.linked other hother
    have hisSome : (host.records.get? other).isSome := hrecord ▸ rfl
    rw [(h.later.record hisSome).bindings, ← hlive.imports other hother own,
      Environment.isImport_iff, Environment.isImport_iff, h.bounds]
    split
    · rename_i hsame
      obtain ⟨rfl, rfl⟩ := hsame
      refine ⟨(fun ⟨_, heq⟩ => nomatch heq), fun ⟨found, heq⟩ => ?_⟩
      rcases h.own with hown | ⟨hnone, -⟩
      · cases hown.symm.trans heq
      · cases hnone.symm.trans heq
    · rfl

/-- What a place reads as changes only where names lead to the one assigned. -/
theorem reading (h : Assigned host host' ref name slot) (hlive : host.BindingsLive) {place : Place}
    (hreading : host'.reading place ≠ host.reading place) : host.Leads ref name place := by
  rcases h.slotAt?_eq place with ⟨rfl, -⟩ | ⟨-, hslot⟩
  · exact .own
  · by_cases hfound : host.slotAt? place = some slot
    · rcases h.own with hown | ⟨-, hnone⟩
      · exact hlive.leads ref name slot place hown hfound
      · have hthere := hlive.slots place slot hfound
        rw [hnone] at hthere
        cases hthere
    · refine absurd ?_ hreading
      have hread (found : Ref .slot) (hplace : host.slotAt? place = some found) (own : String) :
          host'.store.read found own = host.store.read found own := by
        unfold Store.read Store.slot?
        rw [h.slots found fun heq => hfound (heq ▸ hplace)]
      cases place with
      | scope other own =>
        change Environment.read _ _ _ = Environment.read _ _ _
        rw [Host.slotAt?_scope, Host.slotAt?_scope] at hslot
        rw [Host.slotAt?_scope] at hread
        unfold Environment.read
        rw [hslot]
        cases hplace : (host.record other).environment.slot? own with
        | none => rfl
        | some found => exact hread found hplace own
      | exports space own =>
        change Store.readExport _ _ _ = Store.readExport _ _ _
        have hslot : host'.store.exportSlot? space own = host.store.exportSlot? space own := hslot
        unfold Store.readExport
        rw [hslot]
        cases hplace : host.store.exportSlot? space own with
        | none => rfl
        | some found => exact hread found hplace own

end Assigned

namespace Environment

variable {environment : Environment} {name : String} {value : Value} {store : Store} {slot : Ref .slot}

theorem assign_unbound (h : environment.bounds.get? name = none) :
    environment.assign name value store =
      (.ok ⟨environment.bounds.insert name ⟨store.slots.next, true⟩⟩,
        { store with slots := store.slots.push (some value) }) := by
  unfold assign
  rw [h]
  rfl

theorem assign_imported (h : environment.bounds.get? name = some ⟨slot, false⟩) :
    environment.assign name value store = (.error (.readOnlyBinding name), store) := by
  unfold assign
  rw [h]
  rfl

theorem assign_own (h : environment.bounds.get? name = some ⟨slot, true⟩) :
    environment.assign name value store =
      (.ok environment, { store with slots := store.slots.modify slot fun _ => some value }) := by
  unfold assign
  rw [h]
  rfl

theorem not_isImport (h : ∀ slot, environment.bounds.get? name ≠ some ⟨slot, false⟩) :
    ¬ environment.isImport name := by
  intro himport
  obtain ⟨slot, hslot⟩ := isImport_iff.1 himport
  exact h slot hslot

end Environment

namespace Act

variable {host : Host} {ref : Ref .record}

/-- The value is in a slot of the name; then the scope of the record has the slot. -/
theorem rescope_assigns {record : Record} (hrecord : host.records.get? ref = some record)
    {name : String} {value : Value} {environment : Environment} {slots : Arena .slot (Option Value)}
    {slot : Ref .slot}
    (hscope : ∀ own, environment.bounds.get? own =
      if own = name then some ⟨slot, true⟩ else record.environment.bounds.get? own)
    (hslots : ∀ other, other ≠ slot → slots.get? other = host.store.slots.get? other)
    (hvalue : slots.get? slot = some (some value))
    (hold : host.Owns ref name slot ∨ (host.record ref).environment.bounds.get? name = none ∧
      host.store.slots.get? slot = none) :
    After { host with store := { host.store with slots } }
      (changeRecord ref fun record => { record with environment }) fun _ host' =>
        Assigned host host' ref name slot ∧
          host'.store.slots.get? slot = some (some value) := by
  have hown : host.record ref = record := congrArg (Option.getD · default) hrecord
  have hget : (host.records.modify ref fun record => { record with environment }).get? ref =
      some { record with environment } := by
    rw [Arena.get?_modify, if_pos rfl, hrecord]
    rfl
  have hother (other : Ref .record) (hne : other ≠ ref) :
      (host.records.modify ref fun record => { record with environment }).get? other =
        host.records.get? other :=
    (Arena.get?_modify _ _ _ _).trans (if_neg (Ne.symm hne))
  refine (after_changeRecord_same ?_).2 ?_
  · exact fun _ => rfl
  refine ⟨⟨rfl, fun other found hfound => ?_, fun other hnone => ?_, fun other hne => ?_,
    fun own => ?_, hslots, Option.isSome_iff_exists.2 ⟨_, hvalue⟩, hold⟩, hvalue⟩
  · by_cases hsame : other = ref
    · subst hsame
      obtain rfl : record = found := Option.some.inj (hrecord.symm.trans hfound)
      exact ⟨environment, hget⟩
    · exact ⟨found.environment, (hother other hsame).trans hfound⟩
  · rw [← hnone]
    refine hother other ?_
    rintro rfl
    rw [hrecord] at hnone
    cases hnone
  · exact congrArg (fun found => (found.getD default).environment) (hother other hne)
  · rw [hown, ← hscope own]
    exact congrArg (fun found => (found.getD default).environment.bounds.get? own) hget

/-- Assigning an imported name is refused and changes nothing; any other name gets the value. -/
theorem assignIn_assigns (htidy : host.Tidy) (href : (host.records.get? ref).isSome) (name : String)
    (value : Value) :
    After host (assignIn ref name value) fun result host' =>
      ((host.record ref).environment.isImport name ∧ result = .error (.readOnlyBinding name) ∧
        host' = host) ∨
      (¬ (host.record ref).environment.isImport name ∧ result = .ok () ∧
        ∃ slot, Assigned host host' ref name slot ∧
          host'.store.slots.get? slot = some (some value)) := by
  obtain ⟨record, hrecord⟩ := Option.isSome_iff_exists.1 href
  have hown : host.record ref = record := congrArg (Option.getD · default) hrecord
  unfold assignIn
  rw [after_bind, after_get, after_bind, after_onStore, hown]
  cases hbound : record.environment.bounds.get? name with
  | none =>
    -- A name that is not bound yet gets a new slot.
    rw [Environment.assign_unbound hbound]
    refine .inr ⟨Environment.not_isImport fun slot => ?_, rfl, host.store.slots.next,
      rescope_assigns hrecord (fun own => ?_) (fun other hne => ?_) ?_
        (.inr ⟨hown ▸ hbound, Arena.get?_next _⟩)⟩
    · rw [hbound]
      exact nofun
    · rw [Table.get?_insert]
      simp [eq_comm]
    · rw [Arena.get?_push, if_neg hne]
    · rw [Arena.get?_push, if_pos rfl]
  | some bound =>
    obtain ⟨slot, writable⟩ := bound
    cases writable with
    | false =>
      rw [Environment.assign_imported hbound]
      exact .inl ⟨Environment.isImport_iff.2 ⟨slot, hbound⟩, rfl, rfl⟩
    | true =>
      have howns : host.Owns ref name slot := by
        unfold Host.Owns
        rw [hown, hbound]
      have hslot (other : Ref .slot) :
          (host.store.slots.modify slot fun _ => some value).get? other =
            if slot = other then (host.store.slots.get? other).map fun _ => some value
            else host.store.slots.get? other := Arena.get?_modify _ _ _ _
      rw [Environment.assign_own hbound]
      refine .inr ⟨Environment.not_isImport fun other => ?_, rfl, slot,
        rescope_assigns hrecord (fun own => ?_) (fun other hne => ?_) ?_ (.inl howns)⟩
      · rw [hbound]
        exact nofun
      · split
        · rename_i hname
          rw [hname, hbound]
        · rfl
      · rw [hslot, if_neg (Ne.symm hne)]
      · obtain ⟨old, hold⟩ :=
          Option.isSome_iff_exists.1 (htidy.slots _ slot (Host.slotAt?_of_owns howns))
        rw [hslot, if_pos rfl, hold]
        rfl

end Act

end ModuleLoader
