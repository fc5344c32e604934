import Mathlib.Logic.Relation
import ModuleLoader.Proofs.Assignments
/-!
What the chronicle tells: which records were ready at a moment, which ones a schedule missed, and in
which order records move. What was true of a moment stays true in later hosts.
-/

namespace ModuleLoader
set_option autoImplicit false

namespace Host

/-- A linked record depends directly on another one. -/
def Needs (host : Host) (ref other : Ref .record) : Prop :=
  host.Linked ref ∧ other ∈ host.dependencies (host.record ref)

/-- A record is reached from another one through the dependencies of linked records. -/
def Covers (host : Host) : Ref .record → Ref .record → Prop :=
  Relation.ReflTransGen host.Needs

/-- The record exposes a namespace that was there already. -/
def Exposes (host : Host) (ref : Ref .record) : Prop :=
  ∃ record, host.records.get? ref = some record ∧ record.source = none

/-- The record had completed. -/
def ReadyIn (host : Host) (events : List Milestone) (ref : Ref .record) : Prop :=
  host.Exposes ref ∨ .moved ref .ready ∈ events

/-- The record had been linked, or had failed. -/
def PastLinkingIn (host : Host) (events : List Milestone) (ref : Ref .record) : Prop :=
  host.Exposes ref ∨ ∃ phase, .moved ref phase ∈ events ∧ Phase.linked.rank ≤ phase.rank

/-- All records that share a completion had completed. -/
def GroupReady (host : Host) (events : List Milestone) (ready : Ref .ready) : Prop :=
  ∀ ref, (host.record ref).ready = some ready → .moved ref .ready ∈ events

/-- The record had completed, and so had all that share its completion. -/
def SettledIn (host : Host) (events : List Milestone) (ref : Ref .record) : Prop :=
  host.Exposes ref ∨ ∃ ready, (host.record ref).ready = some ready ∧ host.GroupReady events ready

/-- A root was scheduled when a record that it covers had not been linked. -/
def MissedIn (host : Host) (events : List Milestone) (ref : Ref .record) : Prop :=
  ∃ root groups before, (.scheduled root groups :: before) <:+ events ∧ host.Covers root ref ∧
    (host.records.get? ref).isSome ∧ ¬ host.PastLinkingIn before ref

/-- Nobody waits for the record any more. -/
def GivenIn (host : Host) (events : List Milestone) (ref : Ref .record) : Prop :=
  host.SettledIn events ref ∨ host.MissedIn events ref

/-- The records of a group are those that share one completion. -/
def Grouped (host : Host) (members : List (Ref .record)) (ready : Ref .ready) : Prop :=
  ∀ ref, ref ∈ members ↔ (host.record ref).ready = some ready

/-- A record may begin: nobody of its group waits for anything, and those before it have completed. -/
def BeginsIn (host : Host) (before : List Milestone) (ref : Ref .record) : Prop :=
  ∃ root groups done rest ready, .scheduled root groups ∈ before ∧ done ++ ref :: rest ∈ groups ∧
    host.Grouped (done ++ ref :: rest) ready ∧ (∀ other ∈ done, .moved other .ready ∈ before) ∧
      ∀ other ∈ done ++ ref :: rest, ∀ needed ∈ host.dependencies (host.record other),
        (host.record needed).ready = some ready ∨ host.GivenIn before needed

/-- A record of some groups depends directly on one of them. -/
def Within (host : Host) (groups : List (List (Ref .record))) (ref other : Ref .record) : Prop :=
  ref ∈ groups.flatten ∧ other ∈ groups.flatten ∧ other ∈ host.dependencies (host.record ref)

/-- Records were scheduled in groups: each of them now and never before, with all that they need, and
no group leads to a later one. -/
structure ScheduledIn (host : Host) (before : List Milestone) (root : Ref .record)
    (groups : List (List (Ref .record))) : Prop where
  nodup : groups.flatten.Nodup
  afresh : ∀ earlier groups', .scheduled earlier groups' ∈ before →
    ∀ ref ∈ groups'.flatten, ref ∉ groups.flatten
  grouped : ∀ members ∈ groups, members ≠ [] ∧ ∃ ready, host.Grouped members ready
  covered : ∀ ref ∈ groups.flatten, host.Covers root ref
  closed : ∀ ref ∈ groups.flatten, ∀ needed ∈ host.dependencies (host.record ref),
    .moved needed .linked ∈ before → needed ∈ groups.flatten ∨
      ∃ earlier groups', .scheduled earlier groups' ∈ before ∧ needed ∈ groups'.flatten
  apart : groups.Pairwise fun group later => ∀ ref ∈ group, ∀ other ∈ later,
    ¬ Relation.ReflTransGen (host.Within groups) ref other

/-- What has to hold when a milestone is passed. -/
def Fair (host : Host) (before : List Milestone) : Milestone → Prop
  | .moved ref phase => (∀ earlier, .moved ref earlier ∈ before → earlier.allows phase = true) ∧
      (phase = .ready → .moved ref .executing ∈ before) ∧
      (phase = .executing → host.BeginsIn before ref)
  | .scheduled root groups => host.ScheduledIn before root groups
  | .linking _ _ => True
  | .stands _ _ => True
  | .imported node space => ∃ ref, host.lookup? node = some ref ∧
      (host.record ref).space = space ∧ host.GivenIn before ref

/-- Every milestone was passed in order. -/
def Told (host : Host) : Prop :=
  ∀ mark before, (mark :: before) <:+ host.chronicle → host.Fair before mark

/-- What holds of the records of a host in every state. -/
structure Recorded (host : Host) : Prop where
  moved : ∀ ref phase, .moved ref phase ∈ host.chronicle → ∃ record,
    host.records.get? ref = some record ∧ record.source.isSome ∧
      (phase = record.phase ∨ phase.allows record.phase = true)
  phase : ∀ ref record, host.records.get? ref = some record → record.source.isSome →
    record.phase = .loaded ∨ .moved ref record.phase ∈ host.chronicle
  bare : ∀ ref record, host.records.get? ref = some record → record.source = none →
    record.requests = []
  ready : ∀ ref ready, (host.record ref).ready = some ready →
    host.Linked ref ∧ (host.readies.get? ready).isSome
  /-- A record with a completion was scheduled. -/
  scheduled : ∀ ref ready, (host.record ref).ready = some ready →
    ∃ root groups, .scheduled root groups ∈ host.chronicle ∧ ref ∈ groups.flatten
  /-- A linked record without a completion still waits to be scheduled. -/
  waiting : ∀ ref, host.Linked ref → (host.record ref).ready = none →
    (host.record ref).phase = .linked
  failed : ∀ ref, (host.record ref).phase = .failed ↔ (host.record ref).error.isSome = true
  /-- The dependencies of a linked record are there. -/
  fixed : ∀ ref, host.Linked ref → ∀ key ∈ (host.record ref).requestKeys,
    (host.lookup? ⟨(host.record ref).home, key⟩).isSome
  together : ∀ ref other ready, (host.record ref).ready = some ready →
    (host.record other).ready = some ready → host.Covers ref other

end Host

/-- One host comes after another: records that share completions go on sharing them, a failure stays,
and so does it that a verdict was announced. -/
structure Carries (host host' : Host) : Prop where
  later : Later host host'
  ready : ∀ ref ready, (host.record ref).ready = some ready →
    (host'.record ref).ready = some ready
  exist : ∀ ready, (host.readies.get? ready).isSome → (host'.readies.get? ready).isSome
  group : ∀ ref ready, (host.readies.get? ready).isSome →
    (host'.record ref).ready = some ready → (host.record ref).ready = some ready
  error : ∀ ref failure, (host.record ref).error = some failure →
    (host'.record ref).error = some failure
  spoken : ∀ verdict, ((host.verdicts.get? verdict).bind Verdict.result).isSome →
    ((host'.verdicts.get? verdict).bind Verdict.result).isSome

/-- What actions leave alone: tasks, what somebody else drives, and the phases of the records in
there that are not `moving`. -/
structure Follows (moving : List (Ref .record)) (host host' : Host) : Prop
    extends Carries host host' where
  tasks : host'.tasks = host.tasks
  readies : ∀ ready bell work, host.readies.get? ready = some ⟨bell, .driven work⟩ →
    host'.readies.get? ready = some ⟨bell, .driven work⟩
  drivers : ∀ driver bell work, Shelf.drivers.get? host driver = some ⟨bell, .driven work⟩ →
    Shelf.drivers.get? host' driver = some ⟨bell, .driven work⟩
  members : ∀ driver bell work, Shelf.drivers.get? host driver = some ⟨bell, .driven work⟩ →
    ∀ component ∈ work.components, ∀ ref ∈ component.members, ref ∉ moving →
      (host'.record ref).phase = (host.record ref).phase

theorem Carries.trans {a b c : Host} (hab : Carries a b) (hbc : Carries b c) : Carries a c where
  later := hab.later.trans hbc.later
  ready ref ready h := hbc.ready ref ready (hab.ready ref ready h)
  exist ready h := hbc.exist ready (hab.exist ready h)
  group ref ready h h' := hab.group ref ready h (hbc.group ref ready (hab.exist ready h) h')
  error ref failure h := hbc.error ref failure (hab.error ref failure h)
  spoken verdict h := hbc.spoken verdict (hab.spoken verdict h)

namespace Follows

variable {moving : List (Ref .record)} {a b c : Host}

theorem refl (moving : List (Ref .record)) (host : Host) : Follows moving host host where
  later := .refl host
  ready _ _ h := h
  exist _ h := h
  group _ _ _ h := h
  error _ _ h := h
  spoken _ h := h
  tasks := rfl
  readies _ _ _ h := h
  drivers _ _ _ h := h
  members _ _ _ _ _ _ _ _ _ := rfl

theorem trans (hab : Follows moving a b) (hbc : Follows moving b c) : Follows moving a c where
  toCarries := hab.toCarries.trans hbc.toCarries
  tasks := hbc.tasks.trans hab.tasks
  readies ready bell work h := hbc.readies ready bell work (hab.readies ready bell work h)
  drivers driver bell work h := hbc.drivers driver bell work (hab.drivers driver bell work h)
  members driver bell work h component hcomponent ref href hout :=
    (hbc.members driver bell work (hab.drivers driver bell work h) component hcomponent ref href
      hout).trans (hab.members driver bell work h component hcomponent ref href hout)

/-- What leaves more alone leaves less alone. -/
theorem weaken (h : Follows moving a b) {more : List (Ref .record)} (hmore : moving ⊆ more) :
    Follows more a b where
  toCarries := h.toCarries
  tasks := h.tasks
  readies := h.readies
  drivers := h.drivers
  members driver bell work hwork component hcomponent ref href hout :=
    h.members driver bell work hwork component hcomponent ref href fun hmem => hout (hmore hmem)

theorem grow (h : Follows [] a b) (moving : List (Ref .record)) : Follows moving a b :=
  h.weaken (List.nil_subset _)

end Follows

theorem Later.mem_dependencies {host host' : Host} (h : Later host host') {ref other : Ref .record}
    (hmem : other ∈ host.dependencies (host.record ref)) :
    other ∈ host'.dependencies (host'.record ref) := by
  obtain ⟨key, hkey, hlookup⟩ := List.mem_filterMap.1 hmem
  have href : (host.records.get? ref).isSome := by
    cases hrecord : host.records.get? ref with
    | some record => rfl
    | none =>
      unfold Host.record at hkey
      rw [hrecord] at hkey
      cases hkey
  have honward := h.record href
  have hkeys : (host'.record ref).requestKeys = (host.record ref).requestKeys :=
    congrArg (List.map Prod.snd) honward.requests
  refine List.mem_filterMap.2 ⟨key, hkeys ▸ hkey, ?_⟩
  rw [honward.home]
  exact h.lookup? hlookup

/-- The dependencies of a linked record stay what they are. -/
theorem Later.dependencies_back {host host' : Host} (h : Later host host')
    (hrecorded : host.Recorded) {ref : Ref .record} (hlinked : host.Linked ref)
    {other : Ref .record} (hmem : other ∈ host'.dependencies (host'.record ref)) :
    other ∈ host.dependencies (host.record ref) := by
  obtain ⟨record, hrecord, -⟩ := hrecorded.moved ref .linked hlinked
  have honward := h.record (hrecord ▸ rfl : (host.records.get? ref).isSome)
  have hkeys : (host'.record ref).requestKeys = (host.record ref).requestKeys :=
    congrArg (List.map Prod.snd) honward.requests
  obtain ⟨key, hkey, hlookup⟩ := List.mem_filterMap.1 hmem
  rw [hkeys] at hkey
  obtain ⟨found, hfound⟩ := Option.isSome_iff_exists.1 (hrecorded.fixed ref hlinked key hkey)
  rw [honward.home, h.lookup? hfound] at hlookup
  refine List.mem_filterMap.2 ⟨key, hkey, ?_⟩
  rw [hfound, ← hlookup]

namespace Later

variable {host host' : Host}

/-- The dependencies of a linked record stay there. -/
theorem fixed (h : Later host host') (hrecorded : host.Recorded) {ref : Ref .record}
    (hlinked : host.Linked ref) : ∀ key ∈ (host'.record ref).requestKeys,
      (host'.lookup? ⟨(host'.record ref).home, key⟩).isSome := by
  intro key hkey
  obtain ⟨record, hrecord, -⟩ := hrecorded.moved ref .linked hlinked
  have honward := h.record (hrecord ▸ rfl : (host.records.get? ref).isSome)
  have hkeys : (host'.record ref).requestKeys = (host.record ref).requestKeys :=
    congrArg (List.map Prod.snd) honward.requests
  rw [hkeys] at hkey
  obtain ⟨found, hfound⟩ := Option.isSome_iff_exists.1 (hrecorded.fixed ref hlinked key hkey)
  rw [honward.home, h.lookup? hfound]
  rfl

theorem linked (h : Later host host') {ref : Ref .record} (hlinked : host.Linked ref) :
    host'.Linked ref :=
  h.chronicle.subset hlinked

theorem covers (h : Later host host') {ref other : Ref .record} (hcovers : host.Covers ref other) :
    host'.Covers ref other :=
  Relation.ReflTransGen.mono (fun _ _ hneeds =>
    ⟨h.linked hneeds.1, h.mem_dependencies hneeds.2⟩) _ _ hcovers

theorem exposes (h : Later host host') {ref : Ref .record} (hexposes : host.Exposes ref) :
    host'.Exposes ref := by
  obtain ⟨record, hrecord, hsource⟩ := hexposes
  obtain ⟨record', hrecord', honward⟩ := h.records ref record hrecord
  exact ⟨record', hrecord', honward.source.trans hsource⟩

theorem exposes_back (h : Later host host') {ref : Ref .record}
    (href : (host.records.get? ref).isSome) (hexposes : host'.Exposes ref) : host.Exposes ref := by
  obtain ⟨record, hrecord⟩ := Option.isSome_iff_exists.1 href
  obtain ⟨record', hrecord', honward⟩ := h.records ref record hrecord
  obtain ⟨found, hfound, hsource⟩ := hexposes
  obtain rfl : found = record' := Option.some.inj (hfound.symm.trans hrecord')
  exact ⟨record, hrecord, honward.source.symm.trans hsource⟩

theorem missedIn (h : Later host host') {events events' : List Milestone}
    (hevents : events <:+ events') {ref : Ref .record} (hmissed : host.MissedIn events ref) :
    host'.MissedIn events' ref := by
  obtain ⟨root, groups, before, hbefore, hcovers, href, hnot⟩ := hmissed
  refine ⟨root, groups, before, hbefore.trans hevents, h.covers hcovers, h.keeps.records ref href, ?_⟩
  rintro (hexposes | hmoved)
  · exact hnot (.inl (h.exposes_back href hexposes))
  · exact hnot (.inr hmoved)

end Later

namespace Carries

variable {host host' : Host} {events events' : List Milestone}

theorem groupReady (h : Carries host host') (hevents : events <:+ events')
    {ready : Ref .ready} (hexist : (host.readies.get? ready).isSome)
    (hready : host.GroupReady events ready) : host'.GroupReady events' ready :=
  fun other hother => hevents.subset (hready other (h.group other ready hexist hother))

theorem settledIn (h : Carries host host') (hrecorded : host.Recorded)
    (hevents : events <:+ events') {ref : Ref .record} (hsettled : host.SettledIn events ref) :
    host'.SettledIn events' ref := by
  rcases hsettled with hexposes | ⟨ready, href, hready⟩
  · exact .inl (h.later.exposes hexposes)
  · exact .inr ⟨ready, h.ready ref ready href,
      h.groupReady hevents (hrecorded.ready ref ready href).2 hready⟩

theorem givenIn (h : Carries host host') (hrecorded : host.Recorded)
    (hevents : events <:+ events') {ref : Ref .record} (hgiven : host.GivenIn events ref) :
    host'.GivenIn events' ref :=
  hgiven.imp (h.settledIn hrecorded hevents) (h.later.missedIn hevents)

theorem grouped (h : Carries host host') (hrecorded : host.Recorded) {members : List (Ref .record)}
    {ready : Ref .ready} (hnonempty : members ≠ []) (hgrouped : host.Grouped members ready) :
    host'.Grouped members ready := by
  obtain ⟨first, hfirst⟩ := List.exists_mem_of_ne_nil _ hnonempty
  have hexist := (hrecorded.ready first ready ((hgrouped first).1 hfirst)).2
  exact fun ref => ⟨fun hmem => h.ready ref ready ((hgrouped ref).1 hmem),
    fun href => (hgrouped ref).2 (h.group ref ready hexist href)⟩

theorem beginsIn (h : Carries host host') (hrecorded : host.Recorded) {before : List Milestone}
    {ref : Ref .record} (hbegins : host.BeginsIn before ref) : host'.BeginsIn before ref := by
  obtain ⟨root, groups, done, rest, ready, hscheduled, hmem, hgrouped, hdone, hneeds⟩ := hbegins
  have hnonempty : done ++ ref :: rest ≠ [] := List.append_ne_nil_of_right_ne_nil _ (List.cons_ne_nil _ _)
  refine ⟨root, groups, done, rest, ready, hscheduled, hmem, h.grouped hrecorded hnonempty hgrouped,
    hdone, fun other hother needed hneeded => ?_⟩
  have hlinked := (hrecorded.ready other ready ((hgrouped other).1 hother)).1
  exact (hneeds other hother needed (h.later.dependencies_back hrecorded hlinked hneeded)).imp
    (h.ready needed ready) (h.givenIn hrecorded (List.suffix_refl _))

theorem scheduledIn (h : Carries host host') (hrecorded : host.Recorded) {before : List Milestone}
    {root : Ref .record} {groups : List (List (Ref .record))}
    (hscheduled : host.ScheduledIn before root groups) : host'.ScheduledIn before root groups := by
  have hlinked : ∀ ref ∈ groups.flatten, host.Linked ref := fun ref href => by
    obtain ⟨members, hmembers, hmem⟩ := List.mem_flatten.1 href
    obtain ⟨-, ready, hgrouped⟩ := hscheduled.grouped members hmembers
    exact (hrecorded.ready ref ready ((hgrouped ref).1 hmem)).1
  refine ⟨hscheduled.nodup, hscheduled.afresh, fun members hmembers => ?_,
    fun ref href => h.later.covers (hscheduled.covered ref href), fun ref href needed hneeded => ?_, ?_⟩
  · obtain ⟨hnonempty, ready, hgrouped⟩ := hscheduled.grouped members hmembers
    exact ⟨hnonempty, ready, h.grouped hrecorded hnonempty hgrouped⟩
  · exact hscheduled.closed ref href needed
      (h.later.dependencies_back hrecorded (hlinked ref href) hneeded)
  · refine hscheduled.apart.imp fun hapart ref href other hother hreaches => ?_
    refine hapart ref href other hother (Relation.ReflTransGen.mono ?_ _ _ hreaches)
    rintro a b ⟨ha, hb, hneeded⟩
    exact ⟨ha, hb, h.later.dependencies_back hrecorded (hlinked a ha) hneeded⟩

theorem fair (h : Carries host host') (hrecorded : host.Recorded) {before : List Milestone}
    {mark : Milestone} (hfair : host.Fair before mark) : host'.Fair before mark := by
  cases mark with
  | moved ref phase =>
    exact ⟨hfair.1, hfair.2.1, fun hphase => h.beginsIn hrecorded (hfair.2.2 hphase)⟩
  | scheduled root groups => exact h.scheduledIn hrecorded hfair
  | linking batch unmet => trivial
  | stands node target => trivial
  | imported node space =>
    obtain ⟨ref, hlookup, hspace, hgiven⟩ := hfair
    refine ⟨ref, h.later.lookup? hlookup, ?_, h.givenIn hrecorded (List.suffix_refl _) hgiven⟩
    have href : (host.records.get? ref).isSome := by
      rcases hgiven with (⟨record, hrecord, -⟩ | ⟨ready, hready, -⟩) | ⟨-, -, -, -, -, href, -⟩
      · exact hrecord ▸ rfl
      · obtain ⟨record, hrecord, -⟩ := hrecorded.moved ref .linked (hrecorded.ready ref ready hready).1
        exact hrecord ▸ rfl
      · exact href
    rw [h.later.space href, hspace]

/-- What was told stays true, with the milestones passed since. -/
theorem told (h : Carries host host') (hrecorded : host.Recorded) (htold : host.Told)
    {marks : List Milestone} (hchronicle : host'.chronicle = marks ++ host.chronicle)
    (hmarks : ∀ mark before, (mark :: before) <:+ marks →
      host'.Fair (before ++ host.chronicle) mark) : host'.Told := by
  have hall : ∀ marks : List Milestone, (∀ mark before, (mark :: before) <:+ marks →
      host'.Fair (before ++ host.chronicle) mark) →
        ∀ mark before, (mark :: before) <:+ marks ++ host.chronicle → host'.Fair before mark := by
    intro marks
    induction marks with
    | nil => exact fun _ mark before hbefore => h.fair hrecorded (htold mark before hbefore)
    | cons first rest ih =>
      intro hmarks mark before hbefore
      rcases List.suffix_cons_iff.1 hbefore with heq | hbefore
      · obtain ⟨rfl, rfl⟩ := List.cons.inj heq
        exact hmarks mark rest (List.suffix_refl _)
      · exact ih (fun mark before hbefore =>
          hmarks mark before (hbefore.trans (List.suffix_cons _ _))) mark before hbefore
  exact fun mark before hbefore => hall marks hmarks mark before (hchronicle ▸ hbefore)

end Carries

end ModuleLoader
