import ModuleLoader.Proofs.Closures
/-!
What never changes back in a run: records keep their module and move forward, what was loaded stays,
and the chronicle grows.
-/

namespace ModuleLoader
set_option autoImplicit false

namespace Phase

theorem allows_trans {a b c : Phase} (hab : a.allows b = true) (hbc : b.allows c = true) :
    a.allows c = true := by
  revert hab hbc
  cases a <;> cases b <;> cases c <;> decide

end Phase

/-- The record stands for the same module, in the same phase or a later one. -/
structure Record.Onward (record later : Record) : Prop where
  rest : later = { record with
    environment := later.environment
    phase := later.phase
    error := later.error
    ready := later.ready }
  phase : later.phase = record.phase ∨ record.phase.allows later.phase = true

namespace Record.Onward

variable {a b c : Record}

theorem refl (record : Record) : record.Onward record := ⟨rfl, .inl rfl⟩

theorem trans (hab : a.Onward b) (hbc : b.Onward c) : a.Onward c where
  rest := by rw [hbc.rest, hab.rest]
  phase := by
    rcases hab.phase with hab | hab
    · rw [← hab]
      exact hbc.phase
    · rcases hbc.phase with hbc | hbc
      · exact .inr (hbc ▸ hab)
      · exact .inr (Phase.allows_trans hab hbc)

theorem key (h : a.Onward b) : b.key = a.key := by rw [h.rest]

theorem home (h : a.Onward b) : b.home = a.home := by rw [h.rest]

theorem source (h : a.Onward b) : b.source = a.source := by rw [h.rest]

theorem space (h : a.Onward b) : b.space = a.space := by rw [h.rest]

theorem requests (h : a.Onward b) : b.requests = a.requests := by rw [h.rest]

theorem bindings (h : a.Onward b) : b.bindings = a.bindings := by
  unfold Record.bindings
  rw [h.source]

theorem keyOf? (h : a.Onward b) (specifier : String) : b.keyOf? specifier = a.keyOf? specifier := by
  unfold Record.keyOf?
  rw [h.requests]

theorem rank (h : a.Onward b) : a.phase.rank ≤ b.phase.rank := by
  rcases h.phase with h | h
  · exact Nat.le_of_eq (congrArg Phase.rank h.symm)
  · unfold Phase.allows at h
    simp only [Bool.and_eq_true, decide_eq_true_eq] at h
    exact Nat.le_of_lt h.2

theorem advance (record : Record) (next : Phase) : record.Onward (record.advance next) := by
  unfold Record.advance
  split
  · rename_i h
    exact ⟨rfl, .inr h⟩
  · exact refl record

theorem fail (record : Record) (failure : Failure) : record.Onward (record.fail failure) := by
  unfold Record.fail
  split
  · exact refl record
  · rename_i h
    refine ⟨rfl, .inr ?_⟩
    change record.phase.allows .failed = true
    revert h
    cases record.phase <;> decide

end Record.Onward

/-- One host comes after another in a run. -/
structure Later (host host' : Host) : Prop where
  keeps : Keeps host host'
  records : ∀ ref record, host.records.get? ref = some record →
    ∃ record', host'.records.get? ref = some record' ∧ record.Onward record'
  settings : ∀ ref, host.Built ref →
    (host'.compartment ref).settings = (host.compartment ref).settings
  chronicle : host.chronicle <:+ host'.chronicle

namespace Later

variable {a b c host host' : Host}

theorem refl (host : Host) : Later host host :=
  ⟨.refl host, fun _ record h => ⟨record, h, .refl record⟩, fun _ _ => rfl, List.suffix_refl _⟩

theorem trans (hab : Later a b) (hbc : Later b c) : Later a c where
  keeps := hab.keeps.trans hbc.keeps
  records ref record h := by
    obtain ⟨middle, hmiddle, honward⟩ := hab.records ref record h
    obtain ⟨last, hlast, honward'⟩ := hbc.records ref middle hmiddle
    exact ⟨last, hlast, honward.trans honward'⟩
  settings ref h := (hbc.settings ref (hab.keeps.built ref h)).trans (hab.settings ref h)
  chronicle := hab.chronicle.trans hbc.chronicle

theorem record (h : Later host host') {ref : Ref .record} (href : (host.records.get? ref).isSome) :
    (host.record ref).Onward (host'.record ref) := by
  obtain ⟨record, hrecord⟩ := Option.isSome_iff_exists.1 href
  obtain ⟨record', hrecord', honward⟩ := h.records ref record hrecord
  unfold Host.record
  rw [hrecord, hrecord']
  exact honward

theorem lookup? (h : Later host host') {node : Node} {record : Ref .record}
    (hnode : host.lookup? node = some record) : host'.lookup? node = some record := by
  unfold Host.lookup? at hnode ⊢
  obtain ⟨entry, hentry, rfl⟩ := Option.map_eq_some_iff.1 hnode
  rw [h.keeps.entryAt? node entry hentry]
  rfl

end Later

theorem Grows.later {host host' : Host} (h : Grows host host') : Later host host' where
  keeps := h.keeps
  records ref record hrecord := ⟨record, h.records ref record hrecord, .refl record⟩
  settings ref _ := h.settings ref
  chronicle := by
    obtain ⟨marks, hmarks, -⟩ := h.chronicle
    exact ⟨marks, hmarks.symm⟩

/-- Only records changed, each forward. -/
theorem LoadsAlike.later {host host' : Host} (h : LoadsAlike host host')
    (records : ∀ ref record, host.records.get? ref = some record →
      ∃ record', host'.records.get? ref = some record' ∧ record.Onward record')
    (chronicle : host.chronicle <:+ host'.chronicle) : Later host host' where
  keeps := h.keeps
  records := records
  settings ref _ := congrArg Compartment.settings (h.compartment ref)
  chronicle := chronicle

end ModuleLoader
