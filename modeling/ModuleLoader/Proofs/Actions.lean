import ModuleLoader.Host
/-!
Reasoning about actions step by step: what holds after an action that starts in a given host, and
actions that can change nothing but signals, gates, objects, the journal and calls of hooks.
-/

namespace ModuleLoader
set_option autoImplicit false

/-- What holds of the result and the host after an action that starts in `host`. -/
def After {α : Type} (host : Host) (act : Act α) (post : α → Host → Prop) : Prop :=
  post (act host).1 (act host).2

section
variable {α β : Type} {host : Host} {post post' : α → Host → Prop}

theorem After.mono {act : Act α} (h : After host act post)
    (imp : ∀ result host', post result host' → post' result host') : After host act post' :=
  imp _ _ h

theorem After.and {act : Act α} (h : After host act post) (h' : After host act post') :
    After host act fun result host' => post result host' ∧ post' result host' :=
  ⟨h, h'⟩

@[simp] theorem after_pure (result : α) : After host (pure result) post ↔ post result host :=
  Iff.rfl

@[simp] theorem after_bind {post : β → Host → Prop} (act : Act α) (next : α → Act β) :
    After host (act >>= next) post ↔
      After host act fun result host' => After host' (next result) post :=
  Iff.rfl

@[simp] theorem after_get {post : Host → Host → Prop} :
    After host (get : Act Host) post ↔ post host host :=
  Iff.rfl

@[simp] theorem after_modify {post : PUnit → Host → Prop} (f : Host → Host) :
    After host (modify f : Act PUnit) post ↔ post ⟨⟩ (f host) :=
  Iff.rfl

@[simp] theorem after_mark {post : Unit → Host → Prop} (milestones : List Milestone) :
    After host (Act.mark milestones) post ↔
      post () { host with chronicle := milestones ++ host.chronicle } :=
  Iff.rfl

@[simp] theorem after_changeRecord {post : Unit → Host → Prop} (ref : Ref .record)
    (f : Record → Record) :
    After host (Act.changeRecord ref f) post ↔
      post () { host with
        records := host.records.modify ref f
        chronicle := host.phaseChange ref f ++ host.chronicle } :=
  Iff.rfl

@[simp] theorem after_onStore {post : α → Host → Prop} (change : StateM Store α) :
    After host (Act.onStore change) post ↔
      post (change host.store).1 { host with store := (change host.store).2 } :=
  Iff.rfl

@[simp] theorem after_changeCompartment {post : Unit → Host → Prop} (ref : Ref .compartment)
    (f : Compartment → Compartment) :
    After host (Act.changeCompartment ref f) post ↔
      post () { host with compartments := host.compartments.modify ref f } :=
  Iff.rfl

end

namespace Host

variable {host : Host} {ref : Ref .record} {f : Record → Record}

theorem phaseChange_moved {record : Record} (hrecord : host.records.get? ref = some record)
    (h : (f record).phase ≠ record.phase) :
    host.phaseChange ref f = [.moved ref (f record).phase] := by
  unfold phaseChange
  rw [hrecord]
  exact if_neg h

/-- A record entered another phase, and nothing else changed. -/
structure MovesTo (host host' : Host) (ref : Ref .record) (next : Record) : Prop where
  rest : host' = { host with
    records := host'.records
    chronicle := .moved ref next.phase :: host.chronicle }
  get : host'.records.get? ref = some next
  others : ∀ other, other ≠ ref → host'.records.get? other = host.records.get? other

end Host

namespace Record

variable {record : Record}

theorem advance_of_allows {next : Phase} (h : record.phase.allows next = true) :
    record.advance next = { record with phase := next } :=
  if_pos h

theorem fail_of_open (h : record.phase.isTerminal = false) (failure : Failure) :
    record.fail failure = { record with phase := .failed, error := some failure } := by
  unfold Record.fail
  rw [h]
  exact if_neg Bool.false_ne_true

end Record

/-- A change of a record that leaves its phase writes no milestone. -/
theorem after_changeRecord_same {host : Host} {ref : Ref .record} {post : Unit → Host → Prop}
    {f : Record → Record} (h : ∀ record, (f record).phase = record.phase) :
    After host (Act.changeRecord ref f) post ↔
      post () { host with records := host.records.modify ref f } := by
  have hsame : host.phaseChange ref f = [] := by
    unfold Host.phaseChange
    split
    · rfl
    · exact if_pos (h _)
  rw [after_changeRecord, hsame]
  rfl

theorem Act.changeRecord_moves {host : Host} {ref : Ref .record} {record next : Record}
    {f : Record → Record} (hrecord : host.records.get? ref = some record) (hf : f record = next)
    (hphase : next.phase ≠ record.phase) :
    After host (changeRecord ref f) fun _ host' => host.MovesTo host' ref next := by
  subst hf
  rw [after_changeRecord, Host.phaseChange_moved hrecord hphase]
  refine ⟨rfl, ?_, fun other hother => (Arena.get?_modify _ _ _ _).trans (if_neg (Ne.symm hother))⟩
  rw [Arena.get?_modify, if_pos rfl, hrecord]
  rfl

end ModuleLoader
