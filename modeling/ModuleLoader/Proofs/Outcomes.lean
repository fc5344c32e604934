import ModuleLoader.Proofs.BodyOrder
/-!
What scheduled records come to when all has settled. It depends only on what each body does: a component
succeeds when none of its bodies throws and everything it needs has succeeded, whatever was scheduled first
and however the bodies were interleaved.
-/

namespace ModuleLoader
set_option autoImplicit false

namespace Host

variable {host : Host} {ref other needed root : Ref .record} {ready : Ref .ready}
  {groups : List (List (Ref .record))} {members : List (Ref .record)} {before : List Milestone}
  {throws : Ref .record → Option Value} {result : Except Failure Unit}

/-- What a completion comes to: its result is there, or was announced to it. -/
def Resolves (host : Host) (ready : Ref .ready) (result : Except Failure Unit) : Prop :=
  (∃ bell, host.readies.get? ready = some ⟨bell, .done result⟩) ∨
    ∃ work, host.Completes ready work ∧ (host.verdicts.get? work.verdict).bind Verdict.result = some result

/-- Everything that was scheduled has settled. -/
def AllSettled (host : Host) : Prop :=
  ∀ ready, (host.readies.get? ready).isSome → ∃ result, host.Resolves ready result

/-- The records of a strongly connected component were linked together, or none of them was. -/
def LinkedTogether (host : Host) : Prop :=
  ∀ ref other, host.Entwined ref other → host.Linked ref → host.Linked other

/-- What was observed of bodies is what they do: each one returns, or throws a value. -/
structure Behaves (host : Host) (throws : Ref .record → Option Value) : Prop where
  returned : ∀ ref, .moved ref .ready ∈ host.chronicle → throws ref = none
  threw : ∀ ref value, host.Threw ref value → throws ref = some value

/-- The record exposes a namespace, or its completion is a success. -/
def Succeeds (host : Host) (ref : Ref .record) : Prop :=
  host.Exposes ref ∨ ∃ ready, (host.record ref).ready = some ready ∧ host.Resolves ready (.ok ())

/-- A component depends on a record outside. -/
def Awaits (host : Host) (members : List (Ref .record)) (needed : Ref .record) : Prop :=
  ∃ ref ∈ members, needed ∈ host.dependencies (host.record ref) ∧ needed ∉ members

/-- What a component comes to, by what its bodies do and by what it depends on. -/
structure Outcome (host : Host) (throws : Ref .record → Option Value) (members : List (Ref .record))
    (result : Except Failure Unit) : Prop where
  component : ∀ ref ∈ members, ∀ other, other ∈ members ↔ host.Entwined ref other
  succeeds : result = .ok () ↔
    (∀ ref ∈ members, throws ref = none) ∧ ∀ needed, host.Awaits members needed → host.Succeeds needed
  /-- Without a dependency no body was invoked. -/
  withheld : ∀ needed, host.Awaits members needed → ¬ host.Succeeds needed →
    ∀ ref ∈ members, .moved ref .executing ∉ host.chronicle
  /-- With all dependencies, the bodies up to the first that throws were invoked. -/
  invoked : (∀ needed, host.Awaits members needed → host.Succeeds needed) → ∀ front ref back,
    members = front ++ ref :: back →
      (.moved ref .executing ∈ host.chronicle ↔ ∀ other ∈ front, throws other = none)
  ordered : ∀ front ref back, members = front ++ ref :: back → ∀ before,
    (.moved ref .executing :: before) <:+ host.chronicle → ∀ other ∈ front, .moved other .ready ∈ before
  failure : ∀ failure, result = .error failure →
    ∃ ref ∈ members, ∃ origin, host.Relies ref origin ∧ host.FailsBy origin failure

/-- A completion comes to one result only. -/
theorem Resolves.unique {found : Except Failure Unit} (h : host.Resolves ready result)
    (hfound : host.Resolves ready found) : found = result := by
  have hwork {work work' : ReadyWork} (hwork : host.Completes ready work)
      (hwork' : host.Completes ready work') : work = work' := by
    obtain ⟨bell, hwork⟩ := hwork
    obtain ⟨bell', hwork'⟩ := hwork'
    rcases hwork with hwork | hwork <;> rcases hwork' with hwork' | hwork' <;>
      cases hwork.symm.trans hwork' <;> rfl
  have hdone {bell : Ref .bell} {result : Except Failure Unit} {work : ReadyWork}
      (hdone : host.readies.get? ready = some ⟨bell, .done result⟩) (hwork : host.Completes ready work) :
      False := by
    obtain ⟨bell', hwork⟩ := hwork
    rcases hwork with hwork | hwork <;> cases hwork.symm.trans hdone
  rcases h with ⟨bell, h⟩ | ⟨work, hcompletes, h⟩ <;>
    rcases hfound with ⟨bell', hfound⟩ | ⟨work', hcompletes', hfound⟩
  · cases h.symm.trans hfound
    rfl
  · exact (hdone h hcompletes').elim
  · exact (hdone hfound hcompletes).elim
  · obtain rfl := hwork hcompletes hcompletes'
    exact Option.some.inj (hfound.symm.trans h)

/-- What was passed before one moment was passed before a later one, or the later moment is no later. -/
theorem mem_of_suffixes {events : List Milestone} {mark : Milestone} {earlier : List Milestone}
    (hmark : (mark :: earlier) <:+ events) (hbefore : before <:+ events) :
    mark ∈ before ∨ before ⊆ earlier := by
  rcases List.suffix_or_suffix_of_suffix hmark hbefore with hsuffix | hsuffix
  · exact .inl (hsuffix.subset List.mem_cons_self)
  · rcases List.suffix_cons_iff.1 hsuffix with rfl | hsuffix
    · exact .inl List.mem_cons_self
    · exact .inr hsuffix.subset

namespace Coherent

variable (h : host.Coherent)
include h

/-- What a completion comes to is true. -/
theorem cameTo (hresolves : host.Resolves ready result) : host.CameTo ready result := by
  rcases hresolves with ⟨bell, hdone⟩ | ⟨work, hwork, hverdict⟩
  · exact h.announced.done ready bell result hdone
  · exact h.announced.verdicts ready work result hwork hverdict

/-- A record that completed is ready for good. -/
theorem phase_of_ready (hready : .moved ref .ready ∈ host.chronicle) : (host.record ref).phase = .ready := by
  obtain ⟨record, hrecord, -, hphase⟩ := h.recorded.moved ref .ready hready
  have hown : host.record ref = record := congrArg (Option.getD · default) hrecord
  rw [hown]
  rcases hphase with heq | hallows
  · exact heq.symm
  · cases hallows

/-- A record that completed has no error. -/
theorem error_of_ready (hready : .moved ref .ready ∈ host.chronicle) : (host.record ref).error = none := by
  have hfailed := h.recorded.failed ref
  rw [h.phase_of_ready hready] at hfailed
  exact Option.not_isSome_iff_eq_none.1 fun hsome => nomatch hfailed.2 hsome

/-- A record that exposes a namespace never moves. -/
theorem exposes_not_moved (hexposes : host.Exposes ref) (phase : Phase) :
    .moved ref phase ∉ host.chronicle := by
  intro hmoved
  obtain ⟨record, hrecord, hnone⟩ := hexposes
  obtain ⟨found, hfound, hsource, -⟩ := h.recorded.moved ref phase hmoved
  obtain rfl := Option.some.inj (hrecord.symm.trans hfound)
  rw [hnone] at hsource
  cases hsource

/-- A record that has settled is not down. -/
theorem not_down (hsettled : host.SettledIn host.chronicle ref) : ¬ host.Down ref := by
  rintro ⟨other, failure, hother, herror⟩
  have hnone : (host.record other).error = none := by
    rcases hsettled with hexposes | ⟨ready, href, hall⟩
    · rcases hother with rfl | ⟨ready, href, -⟩
      · obtain ⟨record, hrecord, hsource⟩ := hexposes
        have hown : host.record other = record := congrArg (Option.getD · default) hrecord
        have hfailed := h.recorded.failed other
        rw [hown, h.tidy.exposed other record hrecord hsource] at hfailed
        rw [hown]
        exact Option.not_isSome_iff_eq_none.1 fun hsome => nomatch hfailed.2 hsome
      · exact absurd (h.recorded.ready ref ready href).1 (h.exposes_not_moved hexposes .linked)
    · rcases hother with rfl | ⟨ready', href', hother⟩
      · exact h.error_of_ready (hall other href)
      · obtain rfl := Option.some.inj (href.symm.trans href')
        exact h.error_of_ready (hall other hother)
  cases hnone.symm.trans herror

/-- Where all has settled, a record succeeds exactly when it has settled with all that share its completion. -/
theorem succeeds_iff (hall : host.AllSettled) : host.Succeeds ref ↔ host.SettledIn host.chronicle ref := by
  refine or_congr_right ⟨?_, ?_⟩
  · rintro ⟨ready, href, hresolves⟩
    exact ⟨ready, href, h.cameTo hresolves⟩
  · rintro ⟨ready, href, hready⟩
    obtain ⟨result, hresolves⟩ := hall ready (h.recorded.ready ref ready href).2
    match result, h.cameTo hresolves with
    | .ok (), _ => exact ⟨ready, href, hresolves⟩
    | .error failure, hfalls =>
      obtain ⟨fallen, hfallen, herror⟩ := hfalls.fallen
      cases (h.error_of_ready (hready fallen hfallen)).symm.trans herror

/-- A record that was scheduled was linked. -/
theorem linked_of_scheduled (hscheduled : .scheduled root groups ∈ host.chronicle)
    (href : ref ∈ groups.flatten) : host.Linked ref := by
  obtain ⟨earlier, hearlier⟩ := exists_suffix_of_mem hscheduled
  obtain ⟨members, hmembers, hmember⟩ := List.mem_flatten.1 href
  obtain ⟨-, ready, hgrouped⟩ := (h.told _ earlier hearlier).grouped members hmembers
  exact (h.recorded.ready ref ready ((hgrouped ref).1 hmember)).1

section
variable (hprepared : host.Prepared)
include hprepared

/-- What a scheduled record needs was linked by then, if it ever was. -/
theorem linked_before (hbefore : (.scheduled root groups :: before) <:+ host.chronicle)
    (href : ref ∈ groups.flatten) (hneeded : needed ∈ host.dependencies (host.record ref))
    (hlinked : host.Linked needed) : .moved needed .linked ∈ before := by
  have hcovers : host.Covers root needed := .tail ((h.told _ before hbefore).covered ref href)
    ⟨h.linked_of_scheduled (hbefore.subset List.mem_cons_self) href, hneeded⟩
  rcases hprepared root groups before hbefore needed hcovers (h.loads.dependency_exists hneeded) with
    hexposes | ⟨phase, hphase, hrank⟩
  · exact absurd hlinked (h.exposes_not_moved hexposes .linked)
  · obtain ⟨earlier, hearlier⟩ := exists_suffix_of_mem hlinked
    refine (mem_of_suffixes hearlier ((List.suffix_cons _ _).trans hbefore)).resolve_right fun hsub => ?_
    have hallows := (h.told _ earlier hearlier).1 phase (hsub hphase)
    have hlt : phase.rank < Phase.linked.rank := by
      unfold Phase.allows at hallows
      rw [Bool.and_eq_true] at hallows
      exact of_decide_eq_true hallows.2
    omega

/-- Whoever has begun waits for nothing any more. -/
theorem settled_of_begun (hscheduled : .scheduled root groups ∈ host.chronicle) (hmembers : members ∈ groups)
    (href : ref ∈ members) (hexecuting : .moved ref .executing ∈ host.chronicle)
    (hawaits : host.Awaits members needed) : host.SettledIn host.chronicle needed := by
  obtain ⟨other, hother, hneeded, hout⟩ := hawaits
  obtain ⟨before, hbefore⟩ := exists_suffix_of_mem hscheduled
  obtain ⟨-, ready, hgrouped⟩ := (h.told _ before hbefore).grouped members hmembers
  have hready := (hgrouped ref).1 href
  have hrelies := (h.recorded.entwined hready ((hgrouped other).1 hother)).1.tail hneeded
  obtain ⟨earlier, hearlier⟩ := exists_suffix_of_mem hexecuting
  rcases h.begins_relies hprepared hearlier hrelies with hsettled | hsame
  · exact hsettled.mono ((List.suffix_cons _ _).trans hearlier).subset
  · exact absurd ((hgrouped needed).2 (hsame.trans hready)) hout

variable (htogether : host.LinkedTogether)
include htogether

/-- What is entwined with a record that was scheduled before was scheduled before as well. -/
theorem scheduled_before (hbefore : before <:+ host.chronicle)
    (hearlier : ∃ root groups, .scheduled root groups ∈ before ∧ ref ∈ groups.flatten)
    (hrelies : host.Relies ref other) (hback : host.Relies other ref) :
    ∃ root groups, .scheduled root groups ∈ before ∧ other ∈ groups.flatten := by
  induction hrelies with
  | refl => exact hearlier
  | @tail middle last hmiddle hneeded ih =>
    obtain ⟨root, groups, hscheduled, hmem⟩ := ih (.head hneeded hback)
    obtain ⟨first, hfirst⟩ := exists_suffix_of_mem hscheduled
    have hlinked := htogether middle last ⟨.single hneeded, hback.trans hmiddle⟩
      (h.linked_of_scheduled (hbefore.subset hscheduled) hmem)
    rcases (h.told _ first (hfirst.trans hbefore)).closed middle hmem last hneeded
      (h.linked_before hprepared (hfirst.trans hbefore) hmem hneeded hlinked) with hsame | hearlier
    · exact ⟨root, groups, hscheduled, hsame⟩
    · obtain ⟨root', groups', hscheduled', hmem'⟩ := hearlier
      exact ⟨root', groups', ((List.suffix_cons _ _).trans hfirst).subset hscheduled', hmem'⟩

/-- What is entwined with a record is scheduled with it, and the way there stays within the schedule. -/
theorem scheduled_within (hbefore : (.scheduled root groups :: before) <:+ host.chronicle)
    (href : ref ∈ groups.flatten) (hrelies : host.Relies ref other) (hback : host.Relies other ref) :
    other ∈ groups.flatten ∧ Relation.ReflTransGen (host.Within groups) ref other := by
  have hscheduled := h.told _ before hbefore
  induction hrelies with
  | refl => exact ⟨href, .refl⟩
  | @tail middle last hmiddle hneeded ih =>
    obtain ⟨hmem, hwithin⟩ := ih (.head hneeded hback)
    have hlinked := htogether middle last ⟨.single hneeded, hback.trans hmiddle⟩
      (h.linked_of_scheduled (hbefore.subset List.mem_cons_self) hmem)
    have hlast : last ∈ groups.flatten := by
      refine (hscheduled.closed middle hmem last hneeded
        (h.linked_before hprepared hbefore hmem hneeded hlinked)).resolve_right fun hearlier => ?_
      -- Otherwise the record itself would have been scheduled before.
      obtain ⟨root', groups', hscheduled', hmem'⟩ := h.scheduled_before hprepared htogether
        ((List.suffix_cons _ _).trans hbefore) hearlier hback (hmiddle.tail hneeded)
      exact hscheduled.afresh root' groups' hscheduled' ref hmem' href
    exact ⟨hlast, hwithin.tail ⟨hmem, hlast, hneeded⟩⟩

/-- The groups of a schedule are the strongly connected components of the records in it. -/
theorem group_component (hscheduled : .scheduled root groups ∈ host.chronicle) (hmembers : members ∈ groups)
    (href : ref ∈ members) : other ∈ members ↔ host.Entwined ref other := by
  obtain ⟨before, hbefore⟩ := exists_suffix_of_mem hscheduled
  have htold := h.told _ before hbefore
  constructor
  · intro hother
    obtain ⟨-, ready, hgrouped⟩ := htold.grouped members hmembers
    exact h.recorded.entwined ((hgrouped ref).1 href) ((hgrouped other).1 hother)
  · rintro ⟨hrelies, hback⟩
    obtain ⟨hmem, hwithin⟩ := h.scheduled_within hprepared htogether hbefore
      (List.mem_flatten_of_mem hmembers href) hrelies hback
    obtain ⟨-, hwithin'⟩ := h.scheduled_within hprepared htogether hbefore hmem hback hrelies
    obtain ⟨members', hmembers', hother⟩ := List.mem_flatten.1 hmem
    obtain ⟨front, back, rfl⟩ := List.append_of_mem hmembers
    obtain ⟨-, hlater, hearlier⟩ := List.pairwise_append.1 htold.apart
    rcases List.mem_append.1 hmembers' with hfound | hfound
    · exact absurd hwithin' (hearlier members' hfound members List.mem_cons_self other hother ref href)
    · rcases List.mem_cons.1 hfound with rfl | hfound
      · exact hother
      · exact absurd hwithin ((List.pairwise_cons.1 hlater).1 members' hfound ref href other hother)

end

/-- What a component comes to when all has settled. -/
theorem outcome (hprepared : host.Prepared) (htogether : host.LinkedTogether) (hall : host.AllSettled)
    (hbehaves : host.Behaves throws) (hscheduled : .scheduled root groups ∈ host.chronicle)
    (hmembers : members ∈ groups) (hgrouped : host.Grouped members ready)
    (hresolves : host.Resolves ready result) : host.Outcome throws members result := by
  have hcame := h.cameTo hresolves
  have hsucceeds (needed : Ref .record) : host.Succeeds needed ↔ host.SettledIn host.chronicle needed :=
    h.succeeds_iff hall
  have hordered (front : List (Ref .record)) (ref : Ref .record) (back : List (Ref .record))
      (hmember : members = front ++ ref :: back) (before : List Milestone)
      (hbegins : (.moved ref .executing :: before) <:+ host.chronicle) :
      ∀ other ∈ front, .moved other .ready ∈ before :=
    h.told.begins_after hscheduled (hmember ▸ hmembers) hbegins
  have hfront {front : List (Ref .record)} {ref : Ref .record} {back : List (Ref .record)}
      (hmember : members = front ++ ref :: back) (hexecuting : .moved ref .executing ∈ host.chronicle)
      {other : Ref .record} (hother : other ∈ front) : .moved other .ready ∈ host.chronicle := by
    obtain ⟨before, hbefore⟩ := exists_suffix_of_mem hexecuting
    exact ((List.suffix_cons _ _).trans hbefore).subset
      (hordered front ref back hmember before hbefore other hother)
  -- A component that fails though nothing it depends on did has a member that threw.
  have hthrew (hmet : ∀ needed, host.Awaits members needed → host.Succeeds needed) {failure : Failure}
      (hfalls : host.Falls ready failure) : ∃ ref value, ref ∈ members ∧ host.Threw ref value := by
    rcases hfalls.cause with ⟨ref, value, href, hthrew⟩ | ⟨-, ref, needed, href, hneeded, hout, hdown⟩
    · exact ⟨ref, value, (hgrouped ref).2 href, hthrew⟩
    · have hawaits : host.Awaits members needed :=
        ⟨ref, (hgrouped ref).2 href, hneeded, fun hmem => hout ((hgrouped needed).1 hmem)⟩
      exact absurd hdown (h.not_down ((hsucceeds needed).1 (hmet needed hawaits)))
  refine ⟨fun ref href other => h.group_component hprepared htogether hscheduled hmembers href, ?_,
    fun needed hawaits hnot ref href hexecuting => ?_, fun hmet front ref back hmember => ⟨?_, ?_⟩, hordered, ?_⟩
  · constructor
    · rintro rfl
      have hready (ref : Ref .record) (href : ref ∈ members) : .moved ref .ready ∈ host.chronicle :=
        hcame ref ((hgrouped ref).1 href)
      refine ⟨fun ref href => hbehaves.returned ref (hready ref href), fun needed hawaits => ?_⟩
      have ⟨ref, href, _⟩ := hawaits
      exact (hsucceeds needed).2 (h.settled_of_begun hprepared hscheduled hmembers href
        (h.told.executing_of_ready (hready ref href)) hawaits)
    · rintro ⟨hnone, hmet⟩
      match result, hcame with
      | .ok (), _ => rfl
      | .error failure, hfalls =>
        obtain ⟨ref, value, href, hthrew⟩ := hthrew hmet hfalls
        cases (hnone ref href).symm.trans (hbehaves.threw ref value hthrew)
  · exact hnot ((hsucceeds needed).2
      (h.settled_of_begun hprepared hscheduled hmembers href hexecuting hawaits))
  · exact fun hexecuting other hother => hbehaves.returned other (hfront hmember hexecuting hother)
  · intro hnone
    match result, hcame with
    | .ok (), hready =>
      exact h.told.executing_of_ready (hready ref ((hgrouped ref).1 (hmember ▸ List.mem_append_right _
        List.mem_cons_self)))
    | .error failure, hfalls =>
      obtain ⟨thrower, value, hmem, hexecuting, herror⟩ := hthrew hmet hfalls
      rw [hmember] at hmem
      rcases List.mem_append.1 hmem with hother | hother
      · cases (hnone thrower hother).symm.trans (hbehaves.threw thrower value ⟨hexecuting, herror⟩)
      · rcases List.mem_cons.1 hother with rfl | hother
        · exact hexecuting
        · obtain ⟨middle, last, rfl⟩ := List.append_of_mem hother
          rw [← List.cons_append, ← List.append_assoc] at hmember
          exact h.told.executing_of_ready (hfront hmember hexecuting
            (List.mem_append_right _ List.mem_cons_self))
  · rintro failure rfl
    obtain ⟨ref, origin, href, hcovers, hfails⟩ := Falls.origin hcame
    exact ⟨ref, (hgrouped ref).2 href, origin, hcovers.relies, hfails⟩

end Coherent

/-- What the body of a record threw. -/
def thrown (host : Host) (ref : Ref .record) : Option Value :=
  match (host.record ref).error with
  | some (.initialization _ value) => some value
  | _ => none

/-- What was observed of bodies is never contradictory. -/
theorem Coherent.behaves (h : host.Coherent) : host.Behaves host.thrown where
  returned ref hready := by
    unfold thrown
    rw [h.error_of_ready hready]
  threw ref value hthrew := by
    unfold thrown
    rw [hthrew.2]

/-- Whether each completion has a result, or finds its verdict announced. -/
def settledThroughout (host : Host) : Bool :=
  host.readies.cells.all fun shared => match shared.progress with
    | .idle work => ((host.verdicts.get? work.verdict).bind Verdict.result).isSome
    | .driven work => ((host.verdicts.get? work.verdict).bind Verdict.result).isSome
    | .done _ => true

theorem allSettled_of_throughout (h : host.settledThroughout = true) : host.AllSettled := by
  intro ready hexist
  obtain ⟨⟨bell, progress⟩, hshared⟩ := Option.isSome_iff_exists.1 hexist
  have hsettled := Array.all_eq_true'.1 h _ (Array.mem_of_getElem? hshared)
  cases progress with
  | idle work =>
    obtain ⟨result, hresult⟩ := Option.isSome_iff_exists.1 hsettled
    exact ⟨result, .inr ⟨work, ⟨bell, .inl hshared⟩, hresult⟩⟩
  | driven work =>
    obtain ⟨result, hresult⟩ := Option.isSome_iff_exists.1 hsettled
    exact ⟨result, .inr ⟨work, ⟨bell, .inr hshared⟩, hresult⟩⟩
  | done result => exact ⟨result, .inl ⟨bell, hshared⟩⟩

/-- Where every record was linked, all were linked together. -/
theorem Coherent.linkedTogether (h : host.Coherent)
    (hall : ∀ ref, (host.records.get? ref).isSome → host.Linked ref) : host.LinkedTogether := by
  rintro ref other ⟨hrelies, -⟩ hlinked
  rcases Relation.ReflTransGen.cases_tail hrelies with rfl | ⟨middle, -, hneeded⟩
  · exact hlinked
  · exact hall other (h.loads.dependency_exists hneeded)

theorem wovenRun_linkedTogether : wovenRun.LinkedTogether := by
  refine (fresh_coherent.run wovenRun_run).linkedTogether fun ref hexist => ?_
  have hall : ∀ index < wovenRun.records.size, .moved ⟨index⟩ .linked ∈ wovenRun.chronicle := by
    decide +kernel
  obtain ⟨_, hrecord⟩ := Option.isSome_iff_exists.1 hexist
  exact hall ref.index (Array.getElem?_eq_some_iff.1 hrecord).1

end Host

end ModuleLoader
