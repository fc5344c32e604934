import ModuleLoader.Execution.Running
import ModuleLoader.Proofs.Later
/-!
What running modules does to their records: each one moves forward, and compartments, loads and calls
of hooks stay as they are. Linking, assigning and ending records all come to this.

Why a record fails is left open: `fine` says for which reasons one may.
-/

namespace ModuleLoader
set_option autoImplicit false

/-- The record belongs to a batch that was linked. -/
def Host.Batched (host : Host) (ref : Ref .record) : Prop :=
  ∃ batch unmet, .linking batch unmet ∈ host.chronicle ∧ ref ∈ batch

/-- The milestone tells how a record moved. A record that became linked was in a batch. -/
def Host.TellsMove (host : Host) (mark : Milestone) : Prop :=
  ∃ ref phase, mark = .moved ref phase ∧ (phase = .linked → host.Batched ref)

/-- Records moved forward, and failed only for reasons that are fine. Besides, slots, namespaces and
objects changed, and the chronicle tells nothing but how records moved. -/
structure Advances (fine : Failure → Prop) (host host' : Host) : Prop where
  rest : host' = { host with
    store := host'.store
    records := host'.records
    chronicle := host'.chronicle }
  records : ∀ ref record, host.records.get? ref = some record → ∃ record',
    host'.records.get? ref = some record' ∧ record.Onward record' ∧
      ∀ failure, record'.error = some failure → record.error = some failure ∨ fine failure
  none : ∀ ref, host.records.get? ref = none → host'.records.get? ref = none
  linked : ∀ ref record', host'.records.get? ref = some record' → record'.phase = .linked →
    (∃ record, host.records.get? ref = some record ∧ record.phase = .linked) ∨ host.Batched ref
  chronicle : ∃ marks, host'.chronicle = marks ++ host.chronicle ∧ ∀ mark ∈ marks, host.TellsMove mark

namespace Advances

variable {fine : Failure → Prop} {a b c host host' : Host}

theorem refl (host : Host) : Advances fine host host where
  rest := rfl
  records _ record h := ⟨record, h, .refl record, fun _ => .inl⟩
  none _ h := h
  linked _ record h hphase := .inl ⟨record, h, hphase⟩
  chronicle := ⟨[], rfl, fun _ h => nomatch h⟩

/-- No batch is announced meanwhile. -/
theorem batched_back (h : Advances fine host host') {ref : Ref .record}
    (hbatched : host'.Batched ref) : host.Batched ref := by
  obtain ⟨batch, unmet, hbatch, href⟩ := hbatched
  obtain ⟨marks, hmarks, hall⟩ := h.chronicle
  rw [hmarks] at hbatch
  refine ⟨batch, unmet, (List.mem_append.1 hbatch).resolve_left fun hmem => ?_, href⟩
  obtain ⟨_, _, heq, -⟩ := hall _ hmem
  cases heq

theorem trans (hab : Advances fine a b) (hbc : Advances fine b c) : Advances fine a c where
  rest := by
    rw [hbc.rest, hab.rest]
  records ref record h := by
    obtain ⟨middle, hmiddle, honward, herror⟩ := hab.records ref record h
    obtain ⟨last, hlast, honward', herror'⟩ := hbc.records ref middle hmiddle
    refine ⟨last, hlast, honward.trans honward', fun failure hfailure => ?_⟩
    exact (herror' failure hfailure).elim (herror failure) .inr
  none ref h := hbc.none ref (hab.none ref h)
  linked ref record hrecord hphase := by
    rcases hbc.linked ref record hrecord hphase with ⟨middle, hmiddle, hphase'⟩ | hbatched
    · exact hab.linked ref middle hmiddle hphase'
    · exact .inr (hab.batched_back hbatched)
  chronicle := by
    obtain ⟨marks, hmarks, hall⟩ := hab.chronicle
    obtain ⟨marks', hmarks', hall'⟩ := hbc.chronicle
    refine ⟨marks' ++ marks, by rw [hmarks', hmarks, List.append_assoc], fun mark hmem => ?_⟩
    refine (List.mem_append.1 hmem).elim (fun hmem => ?_) (hall mark)
    obtain ⟨ref, phase, heq, hlinked⟩ := hall' mark hmem
    exact ⟨ref, phase, heq, fun hphase => hab.batched_back (hlinked hphase)⟩

theorem loads (h : Advances fine host host') : LoadsAlike host host' where
  compartments := by rw [h.rest]
  loads := by rw [h.rest]
  calls := by rw [h.rest]
  labels := by rw [h.rest]
  records ref href := by
    obtain ⟨record, hrecord⟩ := Option.isSome_iff_exists.1 href
    obtain ⟨record', hrecord', -⟩ := h.records ref record hrecord
    exact hrecord' ▸ rfl
  stands node target hmem := by
    obtain ⟨marks, hmarks, hall⟩ := h.chronicle
    rw [hmarks] at hmem
    refine (List.mem_append.1 hmem).resolve_left fun hmem => ?_
    obtain ⟨ref, phase, heq, -⟩ := hall _ hmem
    cases heq

theorem later (h : Advances fine host host') : Later host host' := by
  refine h.loads.later (fun ref record hrecord => ?_) ?_
  · obtain ⟨record', hrecord', honward, -⟩ := h.records ref record hrecord
    exact ⟨record', hrecord', honward⟩
  · obtain ⟨marks, hmarks, -⟩ := h.chronicle
    exact ⟨marks, hmarks.symm⟩

/-- A record that is there in the end was there before. -/
theorem record_back (h : Advances fine host host') {ref : Ref .record} {record' : Record}
    (hrecord' : host'.records.get? ref = some record') : ∃ record,
      host.records.get? ref = some record ∧ record.Onward record' ∧
        ∀ failure, record'.error = some failure → record.error = some failure ∨ fine failure := by
  cases hrecord : host.records.get? ref with
  | none => exact nomatch (h.none ref hrecord).symm.trans hrecord'
  | some record =>
    obtain ⟨found, hfound, hrest⟩ := h.records ref record hrecord
    obtain rfl : record' = found := Option.some.inj (hrecord'.symm.trans hfound)
    exact ⟨record, rfl, hrest⟩

theorem mem_chronicle (h : Advances fine host host') {mark : Milestone}
    (hmark : mark ∈ host'.chronicle) (hmoved : ∀ ref phase, mark ≠ .moved ref phase) :
    mark ∈ host.chronicle := by
  obtain ⟨marks, hmarks, hall⟩ := h.chronicle
  rw [hmarks] at hmark
  refine (List.mem_append.1 hmark).resolve_left fun hmem => ?_
  obtain ⟨ref, phase, heq, -⟩ := hall mark hmem
  exact hmoved ref phase heq

theorem batched (h : Advances fine host host') {ref : Ref .record} (hbatched : host.Batched ref) :
    host'.Batched ref := by
  obtain ⟨batch, unmet, hbatch, href⟩ := hbatched
  exact ⟨batch, unmet, h.later.chronicle.subset hbatch, href⟩

theorem bind {α β : Type} {act : Act α} {next : α → Act β} (h : Advances fine host (act host).2)
    (hnext : Advances fine (act host).2 (next (act host).1 (act host).2).2) :
    Advances fine host ((act >>= next) host).2 :=
  h.trans hnext

end Advances

/-- An action that only moves records forward, wherever it starts. -/
def Act.IsAdvance {α : Type} (fine : Failure → Prop) (act : Act α) : Prop :=
  ∀ host, Advances fine host (act host).2

namespace Act.IsAdvance

variable {α β : Type} {fine : Failure → Prop}

theorem pure (result : α) : IsAdvance fine (Pure.pure result) := fun host => .refl host

theorem bind {act : Act α} {next : α → Act β} (h : IsAdvance fine act)
    (hnext : ∀ result, IsAdvance fine (next result)) : IsAdvance fine (act >>= next) :=
  fun host => (h host).trans (hnext (act host).1 (act host).2)

theorem getBind {next : Host → Act α} (h : ∀ host, IsAdvance fine (next host)) :
    IsAdvance fine (MonadState.get >>= next) :=
  fun host => h host host

end Act.IsAdvance

namespace Act

open IsAdvance

variable {fine : Failure → Prop}

theorem onStore_advance {α : Type} (change : StateM Store α) : IsAdvance fine (onStore change) :=
  fun _ =>
    { rest := rfl
      records := fun _ record h => ⟨record, h, .refl record, fun _ => .inl⟩
      none := fun _ h => h
      linked := fun _ record h hphase => .inl ⟨record, h, hphase⟩
      chronicle := ⟨[], rfl, fun _ h => nomatch h⟩ }

/-- A record that changes moves forward, if each record would. -/
theorem changeRecord_advances {host : Host} (ref : Ref .record) {f : Record → Record}
    (honward : ∀ record : Record, record.Onward (f record))
    (hfine : ∀ record failure, (f record).error = some failure →
      record.error = some failure ∨ fine failure)
    (hlinked : ∀ record : Record, (f record).phase = .linked → record.phase = .linked ∨
      host.Batched ref) : Advances fine host (changeRecord ref f host).2 := by
  have hafter (other : Ref .record) : (changeRecord ref f host).2.records.get? other =
      if ref = other then (host.records.get? other).map f else host.records.get? other :=
    Arena.get?_modify host.records ref other f
  refine ⟨rfl, fun other record hrecord => ?_, fun other hnone => ?_,
    fun other record' hrecord' hphase => ?_, host.phaseChange ref f, rfl, fun mark hmark => ?_⟩
  · rw [hafter, hrecord]
    split
    · exact ⟨f record, rfl, honward record, hfine record⟩
    · exact ⟨record, rfl, .refl record, fun _ => .inl⟩
  · rw [hafter, hnone]
    split <;> rfl
  · rw [hafter] at hrecord'
    split at hrecord'
    · rename_i heq
      subst heq
      obtain ⟨record, hrecord, rfl⟩ := Option.map_eq_some_iff.1 hrecord'
      exact (hlinked record hphase).imp_left fun hold => ⟨record, hrecord, hold⟩
    · exact .inl ⟨record', hrecord', hphase⟩
  · unfold Host.phaseChange at hmark
    split at hmark
    · cases hmark
    · rename_i record _
      split at hmark
      · cases hmark
      · rename_i hmoved
        refine ⟨ref, _, List.mem_singleton.1 hmark, fun hphase => ?_⟩
        exact (hlinked record hphase).resolve_left fun hold => hmoved (hphase.trans hold.symm)

theorem changeRecord_advance (ref : Ref .record) {f : Record → Record}
    (honward : ∀ record : Record, record.Onward (f record))
    (hfine : ∀ record failure, (f record).error = some failure →
      record.error = some failure ∨ fine failure)
    (hlinked : ∀ record : Record, (f record).phase = .linked → record.phase = .linked) :
    IsAdvance fine (changeRecord ref f) :=
  fun _ => changeRecord_advances ref honward hfine fun record h => .inl (hlinked record h)

/-- Nobody gets linked by a move to another phase. -/
theorem advance_advance (ref : Ref .record) {next : Phase} (hnext : next ≠ .linked) :
    IsAdvance fine (changeRecord ref fun record => record.advance next) := by
  refine changeRecord_advance ref (fun record => .advance record next) (fun record failure h => ?_)
    fun record h => ?_
  · unfold Record.advance at h
    split at h <;> exact .inl h
  · unfold Record.advance at h
    split at h
    · exact absurd h hnext
    · exact h

/-- In the end, a record of a batch becomes linked. -/
theorem then_linked {host host' : Host} {ref : Ref .record} (h : Advances fine host host')
    (hbatched : host.Batched ref) :
    Advances fine host (changeRecord ref (fun record => record.advance .linked) host').2 := by
  refine h.trans (changeRecord_advances ref (fun record => .advance record .linked)
    (fun record failure h => ?_) fun _ _ => .inr (h.batched hbatched))
  unfold Record.advance at h
  split at h <;> exact .inl h

theorem fail_advance (ref : Ref .record) {failure : Failure} (hfailure : fine failure) :
    IsAdvance fine (changeRecord ref fun record => record.fail failure) := by
  refine changeRecord_advance ref (fun record => .fail record failure) (fun record found h => ?_)
    fun record h => ?_
  · unfold Record.fail at h
    split at h
    · exact .inl h
    · cases h
      exact .inr hfailure
  · unfold Record.fail at h
    split at h
    · exact h
    · cases h

theorem failAll_advance {failure : Failure} (hfailure : fine failure) :
    ∀ refs : List (Ref .record), IsAdvance fine (failAll failure refs) := by
  intro refs
  induction refs with
  | nil => exact .pure _
  | cons ref rest ih => exact (fail_advance ref hfailure).bind fun _ => ih

theorem forM_advance {f : Ref .record → Act Unit} (hf : ∀ ref, IsAdvance fine (f ref)) :
    ∀ refs : List (Ref .record), IsAdvance fine (refs.forM f) := by
  intro refs
  induction refs with
  | nil => exact .pure _
  | cons ref rest ih => exact (hf ref).bind fun _ => ih

/-- The records of a component get their completion. -/
theorem ready_advance (ref : Ref .record) (ready : Ref .ready) :
    IsAdvance fine (changeRecord ref fun record => { record with ready := some ready }) :=
  changeRecord_advance ref (fun _ => ⟨rfl, .inl rfl⟩) (fun _ _ h => .inl h) fun _ h => h

/-- A record's bindings change, and nothing else about it. -/
theorem environment_advance (ref : Ref .record) (bound : Record → Environment) :
    IsAdvance fine (changeRecord ref fun record => { record with environment := bound record }) :=
  changeRecord_advance ref (fun _ => ⟨rfl, .inl rfl⟩) (fun _ _ h => .inl h) fun _ h => h

theorem assignIn_advance (ref : Ref .record) (name : String) (value : Value) :
    IsAdvance fine (assignIn ref name value) := by
  unfold assignIn
  refine .getBind fun host => (onStore_advance _).bind fun result => ?_
  cases result with
  | error failure => exact .pure _
  | ok environment =>
    exact (environment_advance ref fun _ => environment).bind fun _ => .pure _

theorem localSlots_advance : ∀ units : List LinkUnit, IsAdvance fine (localSlots units)
  | [] => .pure _
  | _ :: rest => (onStore_advance _).bind fun _ => (localSlots_advance rest).bind fun _ => .pure _

variable (slots : List (Ref .record × List (String × Ref .slot)))

theorem slotFor_advance (origin : Origin) : IsAdvance fine (slotFor slots origin) := by
  unfold slotFor
  cases origin with
  | slot slot => exact .pure _
  | localName record name =>
    dsimp only
    split
    · exact .pure _
    · exact onStore_advance _
  | exports record => exact .getBind fun host => onStore_advance _

theorem slotsFor_advance : ∀ origins : List (String × Origin),
    IsAdvance fine (slotsFor slots origins)
  | [] => .pure _
  | (_, origin) :: rest =>
    (slotFor_advance slots origin).bind fun _ => (slotsFor_advance rest).bind fun _ => .pure _

theorem commit_advances {host : Host} {ref : Ref .record} (hbatched : host.Batched ref)
    (wiring : Wiring) : Advances fine host (commit slots ref wiring host).2 := by
  have himports : Advances fine host (slotsFor slots wiring.imports host).2 :=
    slotsFor_advance slots wiring.imports host
  have hexports : Advances fine (slotsFor slots wiring.imports host).2
      (slotsFor slots wiring.exports (slotsFor slots wiring.imports host).2).2 :=
    slotsFor_advance slots wiring.exports _
  exact then_linked (himports.trans (hexports.trans
    ((environment_advance ref _ _).trans (onStore_advance _ _)))) hbatched

/-- Ending or committing the records of a batch moves them forward, if all failures are fine. -/
theorem commitAll_advances {failed : List (Ref .record × Failure)}
    (hfailed : ∀ pair ∈ failed, fine pair.2) :
    ∀ {wirings : List (LinkUnit × Except Failure Wiring)} {host : Host},
      (∀ unit failure, (unit, .error failure) ∈ wirings → fine failure) →
        (∀ pair ∈ wirings, host.Batched pair.1.record) →
          Advances fine host (commitAll slots failed wirings host).2
  | [], host, _, _ => .refl host
  | (unit, wiring) :: rest, host, hwirings, hbatched => by
    have hfirst : Advances fine host (settle slots failed unit wiring host).2 := by
      cases hfailure : Batch.failureAmong failed unit.record with
      | some failure =>
        obtain ⟨pair, hpair, rfl⟩ := Option.map_eq_some_iff.1 hfailure
        simp only [settle, hfailure]
        exact fail_advance _ (hfailed pair (List.mem_of_find?_eq_some hpair)) host
      | none =>
        simp only [settle, hfailure]
        cases wiring with
        | ok wiring => exact commit_advances slots (hbatched _ List.mem_cons_self) wiring
        | error failure => exact fail_advance _ (hwirings unit _ List.mem_cons_self) host
    exact hfirst.bind (commitAll_advances hfailed
      (fun unit failure hmem => hwirings unit failure (List.mem_cons_of_mem _ hmem))
      fun pair hmem => hfirst.batched (hbatched pair (List.mem_cons_of_mem _ hmem)))

end Act

namespace Batch

variable {fine : Failure → Prop} {batch : Batch}

/-- A failure that spreads is one of those found. -/
theorem spread_fine : ∀ (fuel : Nat) (refs : List (Ref .record))
    (failed : List (Ref .record × Failure)), (∀ pair ∈ failed, fine pair.2) →
      ∀ pair ∈ batch.spread fuel refs failed, fine pair.2 := by
  intro fuel
  induction fuel with
  | zero => exact fun _ _ h => h
  | succ fuel ih =>
    intro refs failed h
    cases refs with
    | nil => exact h
    | cons ref rest =>
      unfold spread
      split
      · exact ih rest failed h
      · rename_i failure hfailure
        obtain ⟨found, hfound, rfl⟩ := Option.map_eq_some_iff.1 hfailure
        refine ih _ _ fun pair hmem => ?_
        rcases List.mem_append.1 hmem with hmem | hmem
        · obtain ⟨dependent, -, rfl⟩ := List.mem_map.1 hmem
          exact h found (List.mem_of_find?_eq_some hfound)
        · exact h pair hmem

theorem allFailures_fine {wirings : List (LinkUnit × Except Failure Wiring)}
    (h : ∀ unit failure, (unit, .error failure) ∈ wirings → fine failure) :
    ∀ pair ∈ batch.allFailures wirings, fine pair.2 := by
  refine spread_fine _ _ _ fun pair hmem => ?_
  obtain ⟨⟨unit, wiring⟩, hwiring, hpair⟩ := List.mem_filterMap.1 hmem
  cases wiring with
  | ok wiring => cases hpair
  | error failure =>
    cases hpair
    exact h unit failure hwiring

end Batch

namespace Act

variable {fine : Failure → Prop}

/-- Records begin to be linked. -/
def beginLinking (refs : List (Ref .record)) : Act Unit :=
  refs.forM fun ref => changeRecord ref fun record => record.advance .linking

/-- Linking moves the records of a batch forward, and they fail for no other reason than their wirings
do. -/
theorem link_advances {host : Host} {refs : List (Ref .record)}
    (hbatched : ∀ ref ∈ refs, host.Batched ref)
    (h : ∀ unit ∈ (Batch.ofRecords (beginLinking refs host).2 refs).units, ∀ failure,
      (Batch.ofRecords (beginLinking refs host).2 refs).wire unit = .error failure →
        fine failure) : Advances fine host (link refs host).2 := by
  cases refs with
  | nil => exact .refl host
  | cons ref rest =>
    have hbegun : Advances fine host (beginLinking (ref :: rest) host).2 :=
      forM_advance (fun ref => advance_advance ref (by decide)) (ref :: rest) host
    have hlink : (link (ref :: rest) host).2 = ((do
        let batch := Batch.ofRecords (beginLinking (ref :: rest) host).2 (ref :: rest)
        let slots ← localSlots batch.units
        let wirings := batch.units.map fun unit => (unit, batch.wire unit)
        commitAll slots (batch.allFailures wirings) wirings : Act Unit)
          (beginLinking (ref :: rest) host).2).2 := rfl
    have hwirings : ∀ unit failure, (unit, Except.error failure) ∈
        ((Batch.ofRecords (beginLinking (ref :: rest) host).2 (ref :: rest)).units.map fun unit =>
          (unit, (Batch.ofRecords (beginLinking (ref :: rest) host).2 (ref :: rest)).wire unit)) →
            fine failure := by
      intro unit failure hmem
      obtain ⟨other, hother, heq⟩ := List.mem_map.1 hmem
      obtain ⟨rfl, hwire⟩ := Prod.mk.inj heq
      exact h _ hother failure hwire
    have hslots : Advances fine (beginLinking (ref :: rest) host).2 (localSlots
        (Batch.ofRecords (beginLinking (ref :: rest) host).2 (ref :: rest)).units
          (beginLinking (ref :: rest) host).2).2 := localSlots_advance _ _
    rw [hlink]
    refine hbegun.trans (hslots.bind (commitAll_advances _ (Batch.allFailures_fine hwirings) hwirings
      fun pair hmem => hslots.batched (hbegun.batched ?_)))
    obtain ⟨unit, hunit, rfl⟩ := List.mem_map.1 hmem
    obtain ⟨other, hother, rfl⟩ := List.mem_map.1 hunit
    exact hbatched other hother

end Act

end ModuleLoader
