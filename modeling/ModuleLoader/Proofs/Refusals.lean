import ModuleLoader.Proofs.CoherentSessions
import ModuleLoader.Proofs.MetRequests
/-!
What refuses to be done without waiting. A closure is drafted outside the memo and enters it as a whole, so
that an operation at once that fails earlier leaves all as it was: memos, loads in flight, records, scopes and
namespaces. An import that is admitted has its whole closure memoized, whatever comes of running it.
-/

namespace ModuleLoader
set_option autoImplicit false

/-- Every memo, every load in flight and every record is what it was, and so is what slots hold and
namespaces list. There may be new records that nobody knows of. -/
structure Untouched (host host' : Host) : Prop where
  still : Still host host'
  records : host.records.Extends host'.records
  slots : host.store.slots.Extends host'.store.slots
  spaces : host.store.spaces.Extends host'.store.spaces

theorem Still.untouched {host host' : Host} (h : Still host host') (hgrows : Grows host host') :
    Untouched host host' :=
  ⟨h, hgrows.records, hgrows.slots, hgrows.spaces⟩

namespace Host

variable {host host' : Host} {root : Node}

theorem Covered.later (hlater : Later host host') (h : host.Covered root) : host'.Covered root := by
  obtain ⟨nodes, hroot, hnodes⟩ := h
  refine ⟨nodes, hroot, fun node hmem => ?_⟩
  obtain ⟨hentry, hexpands⟩ := hnodes node hmem
  exact ⟨isSome_later hlater hentry, hexpands.later hlater fun _ => id⟩

theorem Covered.entry (h : host.Covered root) : (host.entryAt? root).isSome := by
  obtain ⟨nodes, hroot, hnodes⟩ := h
  exact (hnodes root hroot).1

/-- How an import at once may fail once its closure was entered: it did not settle, or its record failed or
needs one that did. -/
def FailsEntered (host : Host) (root : Node) (failure : Failure) : Prop :=
  failure = .unavailable root.key .unsettled ∨ ∃ ref, host.lookup? root = some ref ∧ host.Lost ref failure

end Host

namespace Act

open Host

variable {host : Host} {root : Node}

/-- A load at once that fails leaves all as it was, and one that succeeds has memoized its whole closure. -/
theorem loadNow_whole (h : host.Complete) (hroot : host.Built root.compartment) :
    After host (loadNow root) fun result host' => match result with
      | .error _ => Untouched host host'
      | .ok () => host'.Covered root := by
  unfold loadNow
  rw [after_bind]
  refine (After.and (draft_still h.orderly.loads hroot) (draft_tracks h.orderly.loads h.traced hroot)).mono
    fun result middle ⟨⟨hloads, hgrows, hstill, hgood⟩, htraced, _, hdrafted⟩ => ?_
  cases result with
  | error failure => exact hstill.untouched hgrows
  | ok drafted =>
    dsimp only
    rw [after_bind]
    exact After.mono (enterDraft_tracks hloads htraced (hgood drafted rfl) (hdrafted drafted rfl))
      fun _ _ ⟨_, _, hcovered⟩ => hcovered

/-- An import at once that succeeds has memoized its whole closure. One that fails leaves all as it was, or has
memoized the closure as well: then it did not settle, or comes to the failure of a record. -/
theorem importNow_whole {look : LookReady} (hlook : look.Coheres) (h : host.Complete)
    (hcoherent : host.Coherent) (hroot : host.Built root.compartment) :
    After host (importNow look root) fun result host' => match result with
      | .ok _ => host'.Covered root
      | .error failure => Untouched host host' ∨ host'.Covered root ∧ host'.FailsEntered root failure := by
  unfold importNow
  rw [after_bind]
  refine (After.and (draft_still h.orderly.loads hroot) (draft_tracks h.orderly.loads h.traced hroot)).mono
    fun result middle ⟨⟨hloads, hgrows, hstill, hgood⟩, htraced, _, hdrafted⟩ => ?_
  have hmiddle : middle.Coherent := hcoherent.grows hloads hgrows
  cases result with
  | error failure => exact .inl (hstill.untouched hgrows)
  | ok drafted =>
    dsimp only
    rw [after_bind, after_get]
    split
    · exact .inl (hstill.untouched hgrows)
    · rw [after_bind]
      refine (After.and (Loads.coheres hmiddle (enterDraft_loads hloads (hgood drafted rfl)))
        (enterDraft_tracks hloads htraced (hgood drafted rfl) (hdrafted drafted rfl))).mono
        fun _ entered ⟨⟨hentered, _⟩, _, _, hcovered⟩ => ?_
      refine After.mono (runEntered_coheres hlook hentered) fun result last hlast => ?_
      obtain ⟨-, hfollows, hrefused⟩ := hlast
      have hcovered' := hcovered.later hfollows.later
      cases result with
      | ok space => exact hcovered'
      | error failure => exact .inr ⟨hcovered', hrefused failure rfl hcovered.entry⟩

end Act

namespace Host

variable {host : Host} {root : Node}

/-- In every state of a session, an operation at once either leaves every memo, every record and every slot as
it was, or memoizes the whole closure of its key. A load that fails does the former, and so does an import
that fails, unless it was admitted and then did not settle, or came to the failure of a record. -/
theorem whole_or_untouched (hrun : Run default host) (hroot : host.Built root.compartment) :
    (After host (Act.loadNow root) fun result host' => match result with
      | .error _ => Untouched host host'
      | .ok () => host'.Covered root) ∧
    After host (Act.importNow Act.lookOutside root) fun result host' => match result with
      | .ok _ => host'.Covered root
      | .error failure =>
        Untouched host host' ∨ host'.Covered root ∧ host'.FailsEntered root failure := by
  have h := complete_of_run hrun
  exact ⟨Act.loadNow_whole h hroot,
    Act.importNow_whole Act.lookOutside_coheres h (fresh_coherent.run hrun) hroot⟩

/-- A module that needs two others. The first one imports, while its body runs, a third one that needs the
second one, which has not run by then. -/
def hasty : Host :=
  (Act.newCompartment (.simple "hasty"
    [("main", ChainKind.moduleOf [.importAll "a" "a", .importAll "b" "b"] none),
      ("a", .module false [] (some [.attempt, .importNow "c" none, .attemptEnd]) false true false []),
      ("b", ChainKind.moduleOf [] none),
      ("c", ChainKind.moduleOf [.importAll "b" "b"] none)]) default).2

/-- The module is imported. -/
def hastyRun : Host :=
  (Act.importNow Act.lookOutside ⟨⟨0⟩, "main"⟩ hasty).2

/-- The third module was linked and never ran: the import within the body did not settle, but its closure had
been entered. -/
example : (hastyRun.lookup? ⟨⟨0⟩, "c"⟩).map (fun ref => (hastyRun.record ref).phase) = some .linked ∧
    (hastyRun.lookup? ⟨⟨0⟩, "main"⟩).map (fun ref => (hastyRun.record ref).phase) = some .ready := by
  decide +kernel

end Host

end ModuleLoader
