import ModuleLoader.Execution.Running
import ModuleLoader.Proofs.Coherence
/-!
Records enter phases while they run: one of them at a time when its body begins or ends, and all that are
left when a run fails.
-/

namespace ModuleLoader
set_option autoImplicit false

theorem Arena.eq_of_get? {k : Noun} {α : Type} {a b : Arena k α} (h : ∀ ref, a.get? ref = b.get? ref) :
    a = b :=
  congrArg Arena.mk (Array.ext_getElem? fun index => h ⟨index⟩)

/-- Records entered phases one after another, and nothing else changed. -/
structure Enters (host host' : Host) (phases : List (Ref .record × Phase)) : Prop where
  rest : host' = { host with records := host'.records, chronicle := host'.chronicle }
  nodup : (phases.map Prod.fst).Nodup
  moved : ∀ ref phase, (ref, phase) ∈ phases → ∃ record error,
    host.records.get? ref = some record ∧ record.phase.allows phase = true ∧
      host'.records.get? ref = some { record with phase, error } ∧
        (phase = .failed ↔ error.isSome = true)
  others : ∀ ref, ref ∉ phases.map Prod.fst → host'.records.get? ref = host.records.get? ref
  chronicle : host'.chronicle =
    (phases.map fun pair => .moved pair.1 pair.2).reverse ++ host.chronicle

namespace Enters

variable {a b c host host' : Host} {moving : List (Ref .record)} {phases more : List (Ref .record × Phase)}

theorem refl (host : Host) : Enters host host [] where
  rest := rfl
  nodup := List.nodup_nil
  moved _ _ hmem := nomatch hmem
  others _ _ := rfl
  chronicle := rfl

theorem trans (hab : Enters a b phases) (hbc : Enters b c more)
    (hdisjoint : ∀ ref ∈ more.map Prod.fst, ref ∉ phases.map Prod.fst) : Enters a c (phases ++ more) where
  rest := by rw [hbc.rest, hab.rest]
  nodup := by
    rw [List.map_append]
    exact List.nodup_append.2 ⟨hab.nodup, hbc.nodup, fun ref hmem other hmem' heq =>
      hdisjoint other hmem' (heq ▸ hmem)⟩
  moved ref phase hmem := by
    rcases List.mem_append.1 hmem with hmem | hmem
    · obtain ⟨record, error, hrecord, hallows, hnew, herror⟩ := hab.moved ref phase hmem
      refine ⟨record, error, hrecord, hallows, (hbc.others ref fun hmem' => ?_).trans hnew, herror⟩
      exact hdisjoint ref hmem' (List.mem_map_of_mem (f := Prod.fst) hmem)
    · obtain ⟨record, error, hrecord, hmoved⟩ := hbc.moved ref phase hmem
      refine ⟨record, error, ?_, hmoved⟩
      rw [← hab.others ref (hdisjoint ref (List.mem_map_of_mem (f := Prod.fst) hmem))]
      exact hrecord
  others ref hmem := by
    rw [List.map_append, List.mem_append, not_or] at hmem
    exact (hbc.others ref hmem.2).trans (hab.others ref hmem.1)
  chronicle := by
    rw [hbc.chronicle, hab.chronicle, List.map_append, List.reverse_append, List.append_assoc]

theorem loads (h : Enters host host' phases) : LoadsAlike host host' := by
  refine ⟨by rw [h.rest], by rw [h.rest], by rw [h.rest], by rw [h.rest], fun ref href => ?_,
    fun node target hmem => ?_⟩
  · by_cases hmem : ref ∈ phases.map Prod.fst
    · obtain ⟨⟨found, phase⟩, hpair, rfl⟩ := List.mem_map.1 hmem
      obtain ⟨record, error, -, -, hnew, -⟩ := h.moved found phase hpair
      exact hnew ▸ rfl
    · rwa [h.others ref hmem]
  · rw [h.chronicle] at hmem
    refine (List.mem_append.1 hmem).resolve_left fun hmem => ?_
    obtain ⟨pair, -, heq⟩ := List.mem_map.1 (List.mem_reverse.1 hmem)
    cases heq

/-- Where nobody gets linked, records only move. -/
theorem moves (h : Enters host host' phases) (hlinked : ∀ ref, (ref, Phase.linked) ∉ phases) :
    Moves host host' where
  loads := h.loads
  store := by rw [h.rest]
  records ref record hrecord := by
    by_cases hmem : ref ∈ phases.map Prod.fst
    · obtain ⟨⟨found, phase⟩, hpair, rfl⟩ := List.mem_map.1 hmem
      obtain ⟨old, error, hold, hallows, hnew, -⟩ := h.moved found phase hpair
      obtain rfl := Option.some.inj (hold.symm.trans hrecord)
      exact ⟨_, hnew, ⟨rfl, .inr hallows⟩, rfl⟩
    · exact ⟨record, (h.others ref hmem).trans hrecord, .refl record, rfl⟩
  none ref hnone := by
    rw [h.others ref fun hmem => ?_]
    · exact hnone
    · obtain ⟨⟨found, phase⟩, hpair, rfl⟩ := List.mem_map.1 hmem
      obtain ⟨old, error, hold, -⟩ := h.moved found phase hpair
      cases hnone.symm.trans hold
  linked ref hmem := by
    unfold Host.Linked at hmem
    rw [h.chronicle] at hmem
    refine (List.mem_append.1 hmem).resolve_left fun hmem => ?_
    obtain ⟨⟨found, phase⟩, hpair, heq⟩ := List.mem_map.1 (List.mem_reverse.1 hmem)
    cases heq
    exact hlinked _ hpair
  chronicle := by
    rw [h.chronicle]
    exact List.suffix_append _ _

theorem shifts (h : Enters host host' phases) (hlinked : ∀ ref, (ref, Phase.linked) ∉ phases) :
    Shifts host host' phases where
  later := (h.moves hlinked).later
  tasks := by rw [h.rest]
  readies := by rw [h.rest]
  drivers := by rw [h.rest]
  verdicts := by rw [h.rest]
  nodup := h.nodup
  moved ref phase hmem := by
    obtain ⟨record, error, hrecord, hallows, hnew, herror⟩ := h.moved ref phase hmem
    exact ⟨record, _, hrecord, hnew, hallows, rfl, rfl, herror⟩
  others := h.others
  chronicle := h.chronicle

/-- Records that enter phases when these are due keep a host coherent. -/
theorem coherent (h : Enters host host' phases) (hcoherent : host.Coherent)
    (hdue : Shifts.Due host host' moving phases) (hlinked : ∀ ref, (ref, Phase.linked) ∉ phases) :
    host'.Coherent ∧ Follows moving host host' :=
  hcoherent.shifts (h.shifts hlinked) hdue h.loads
    ((h.moves hlinked).undisturbed.tidy hcoherent.tidy)

end Enters

theorem Phase.allows_failed {phase : Phase} : phase.allows .failed = !phase.isTerminal := by
  cases phase <;> rfl

namespace Act

variable {host : Host} {ref : Ref .record}

/-- A record enters a phase. -/
theorem changeRecord_enters {record : Record} {f : Record → Record} {phase : Phase}
    {error : Option Failure} (hrecord : host.records.get? ref = some record)
    (hallows : record.phase.allows phase = true) (hf : f record = { record with phase, error })
    (herror : phase = .failed ↔ error.isSome = true) :
    After host (changeRecord ref f) fun _ host' => Enters host host' [(ref, phase)] ∧
      host'.records.get? ref = some { record with phase, error } := by
  have hne : phase ≠ record.phase := by
    rintro rfl
    unfold Phase.allows at hallows
    simp at hallows
  refine (changeRecord_moves hrecord hf hne).mono fun _ host' hmoves => ?_
  refine ⟨⟨?_, List.nodup_singleton _, fun other entered hmem => ?_, fun other hmem => ?_, ?_⟩, hmoves.get⟩
  · rw [hmoves.rest]
  · obtain ⟨rfl, rfl⟩ := Prod.mk.inj (List.mem_singleton.1 hmem)
    exact ⟨record, error, hrecord, hallows, hmoves.get, herror⟩
  · exact hmoves.others other fun heq => hmem (List.mem_singleton.2 heq)
  · rw [hmoves.rest]
    rfl

/-- Where the record stays what it is, nothing changes. -/
theorem changeRecord_same {record : Record} {f : Record → Record}
    (hrecord : host.records.get? ref = some record) (hf : f record = record) :
    After host (changeRecord ref f) fun _ host' => host' = host := by
  have hphase : host.phaseChange ref f = [] := by
    unfold Host.phaseChange
    rw [hrecord]
    exact if_pos (congrArg Record.phase hf)
  have hsame : host.records.modify ref f = host.records := by
    refine Arena.eq_of_get? fun other => ?_
    rw [Arena.get?_modify]
    split
    · rename_i heq
      rw [← heq, hrecord, Option.map_some, hf]
    · rfl
  rw [after_changeRecord, hphase, hsame]
  rfl

/-- The records of a list that have not ended yet. -/
def unended (host : Host) (refs : List (Ref .record)) : List (Ref .record) :=
  refs.filter fun ref => !(host.record ref).phase.isTerminal

theorem mem_unended {refs : List (Ref .record)} :
    ref ∈ unended host refs ↔ ref ∈ refs ∧ (host.record ref).phase.isTerminal = false := by
  unfold unended
  rw [List.mem_filter, Bool.not_eq_true']

/-- When records fail, those that have not ended enter that phase, with the failure. -/
theorem failAll_enters (failure : Failure) : ∀ (refs : List (Ref .record)) {host : Host}, refs.Nodup →
    (∀ ref ∈ refs, (host.records.get? ref).isSome) →
      After host (failAll failure refs) fun _ host' =>
        Enters host host' ((unended host refs).map fun ref => (ref, .failed)) ∧
          ∀ ref ∈ unended host refs, (host'.record ref).error = some failure
  | [], host, _, _ => ⟨.refl host, fun _ hmem => nomatch hmem⟩
  | first :: rest, host, hnodup, hexist => by
    obtain ⟨hfirst, hnodup⟩ := List.nodup_cons.1 hnodup
    obtain ⟨record, hrecord⟩ := Option.isSome_iff_exists.1 (hexist first List.mem_cons_self)
    have hown : host.record first = record := congrArg (Option.getD · default) hrecord
    have hrest (ref : Ref .record) (hmem : ref ∈ rest) := hexist ref (List.mem_cons_of_mem _ hmem)
    unfold failAll
    rw [after_bind]
    cases hterminal : record.phase.isTerminal with
    | true =>
      -- A record that has ended stays what it is.
      have hfail : record.fail failure = record := if_pos hterminal
      have hunended : unended host (first :: rest) = unended host rest := by
        unfold unended
        rw [List.filter_cons_of_neg]
        rw [hown, hterminal]
        exact Bool.false_ne_true
      refine (changeRecord_same hrecord hfail).mono fun _ host' heq => ?_
      rw [heq, hunended]
      exact failAll_enters failure rest hnodup hrest
    | false =>
      have hallows : record.phase.allows .failed = true := by
        rw [Phase.allows_failed, hterminal]
        rfl
      have hfail : record.fail failure = { record with phase := .failed, error := some failure } :=
        Record.fail_of_open hterminal failure
      refine (changeRecord_enters hrecord hallows hfail (iff_of_true rfl rfl)).mono
        fun _ middle ⟨henters, hnew⟩ => ?_
      have hothers (ref : Ref .record) (hmem : ref ∈ rest) :
          middle.records.get? ref = host.records.get? ref :=
        henters.others ref fun hmem' => hfirst ((List.mem_singleton.1 hmem' : ref = first) ▸ hmem)
      have hunended : unended host (first :: rest) = first :: unended middle rest := by
        have hcongr : unended middle rest = unended host rest := by
          refine List.filter_congr fun ref hmem => ?_
          unfold Host.record
          rw [hothers ref hmem]
        rw [hcongr]
        unfold unended
        rw [List.filter_cons_of_pos]
        rw [hown, hterminal]
        rfl
      refine (failAll_enters failure rest hnodup fun ref hmem => (hothers ref hmem).symm ▸
        hrest ref hmem).mono fun _ host' ⟨hlast, herrors⟩ => ?_
      have hout : first ∉ ((unended middle rest).map fun ref => (ref, Phase.failed)).map Prod.fst := by
        rw [List.map_map]
        intro hmem
        obtain ⟨ref, href, heq⟩ := List.mem_map.1 hmem
        exact hfirst (heq ▸ (mem_unended.1 href).1)
      rw [hunended]
      refine ⟨henters.trans hlast fun ref hmem hmem' =>
        hout ((List.mem_singleton.1 hmem' : ref = first) ▸ hmem),
        fun ref hmem => ?_⟩
      rcases List.mem_cons.1 hmem with rfl | hmem
      · unfold Host.record
        rw [hlast.others ref hout, hnew]
        rfl
      · exact herrors ref hmem

end Act

end ModuleLoader
