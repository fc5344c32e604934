import Mathlib.Data.List.Infix
import ModuleLoader.Proofs.CoherentSessions
/-!
The order in which bodies run. Where every schedule found all that its root covers past linking, a body runs
only when everything its record depends on has completed or lies in the same strongly connected component,
and the bodies of a component run one after another.
-/

namespace ModuleLoader
set_option autoImplicit false

namespace Host

variable {host : Host} {ref other needed : Ref .record} {ready : Ref .ready}
  {before events : List Milestone}

/-- A record depends on another one, directly or through others. -/
def Relies (host : Host) : Ref .record → Ref .record → Prop :=
  Relation.ReflTransGen fun ref other => other ∈ host.dependencies (host.record ref)

/-- Two records lie in the same strongly connected component of the dependency graph. -/
def Entwined (host : Host) (ref other : Ref .record) : Prop :=
  host.Relies ref other ∧ host.Relies other ref

/-- Whenever a root was scheduled, every record that it covers was past linking. -/
def Prepared (host : Host) : Prop :=
  ∀ root groups before, (.scheduled root groups :: before) <:+ host.chronicle →
    ∀ ref, host.Covers root ref → (host.records.get? ref).isSome → host.PastLinkingIn before ref

theorem Covers.relies (h : host.Covers ref other) : host.Relies ref other :=
  Relation.ReflTransGen.mono (fun _ _ hneeds => hneeds.2) _ _ h

/-- Records that share a completion rely on each other. -/
theorem Recorded.entwined (h : host.Recorded) (href : (host.record ref).ready = some ready)
    (hother : (host.record other).ready = some ready) : host.Entwined ref other :=
  ⟨(h.together ref other ready href hother).relies, (h.together other ref ready hother href).relies⟩

/-- Where all was prepared, nobody waits for a record only when it has settled. -/
theorem Prepared.settled (h : host.Prepared) (hbefore : before <:+ host.chronicle)
    (hgiven : host.GivenIn before ref) : host.SettledIn before ref := by
  refine hgiven.resolve_right ?_
  rintro ⟨root, groups, earlier, hearlier, hcovers, hexist, hnot⟩
  exact hnot (h root groups earlier (hearlier.trans hbefore) ref hcovers hexist)

theorem SettledIn.mono (h : host.SettledIn before ref) (hsub : before ⊆ events) : host.SettledIn events ref :=
  h.imp_right fun ⟨ready, href, hall⟩ => ⟨ready, href, fun other hother => hsub (hall other hother)⟩

theorem MissedIn.mono (h : host.MissedIn before ref) (hsuffix : before <:+ events) : host.MissedIn events ref := by
  obtain ⟨root, groups, earlier, hearlier, hmissed⟩ := h
  exact ⟨root, groups, earlier, hearlier.trans hsuffix, hmissed⟩

theorem GivenIn.mono (h : host.GivenIn before ref) (hsuffix : before <:+ events) : host.GivenIn events ref :=
  h.imp (fun hsettled => hsettled.mono hsuffix.subset) fun hmissed => hmissed.mono hsuffix

theorem SettledIn.readyIn (h : host.SettledIn before ref) : host.ReadyIn before ref :=
  h.imp_right fun ⟨_, href, hall⟩ => hall ref href

/-- A body is invoked once, before its record completes. -/
theorem Told.begins_first (h : host.Told) (hbegins : (.moved ref .executing :: before) <:+ host.chronicle) :
    .moved ref .executing ∉ before ∧ .moved ref .ready ∉ before :=
  have hearlier := (h _ before hbegins).1
  ⟨(fun hmem => nomatch hearlier .executing hmem), fun hmem => nomatch hearlier .ready hmem⟩

/-- Two schedules that share a record are the same. -/
theorem Told.scheduled_once (h : host.Told) {root root' : Ref .record} {groups groups' : List (List (Ref .record))}
    (hmem : .scheduled root groups ∈ host.chronicle) (hmem' : .scheduled root' groups' ∈ host.chronicle)
    (href : ref ∈ groups.flatten) (href' : ref ∈ groups'.flatten) : groups = groups' := by
  -- Whichever schedule came later, its records are new.
  have hlater : ∀ events : List Milestone, events <:+ host.chronicle → .scheduled root groups ∈ events →
      .scheduled root' groups' ∈ events → groups = groups' := by
    intro events
    induction events with
    | nil => exact fun _ hmem => nomatch hmem
    | cons mark before ih =>
      intro hbefore hmem hmem'
      rcases List.mem_cons.1 hmem with heq | hearlier
      · rcases List.mem_cons.1 hmem' with heq' | hearlier'
        · cases heq.trans heq'.symm
          rfl
        · subst heq
          exact absurd href ((h _ before hbefore).afresh root' groups' hearlier' ref href')
      · rcases List.mem_cons.1 hmem' with heq' | hearlier'
        · subst heq'
          exact absurd href' ((h _ before hbefore).afresh root groups hearlier ref href)
        · exact ih ((List.suffix_cons _ _).trans hbefore) hearlier hearlier'
  exact hlater host.chronicle (List.suffix_refl _) hmem hmem'

theorem Told.group_nodup (h : host.Told) {root : Ref .record} {groups : List (List (Ref .record))}
    {members : List (Ref .record)} (hmem : .scheduled root groups ∈ host.chronicle)
    (hmembers : members ∈ groups) : members.Nodup := by
  obtain ⟨earlier, hearlier⟩ := exists_suffix_of_mem hmem
  exact (List.nodup_flatten.1 (h _ earlier hearlier).nodup).1 members hmembers

/-- The group of a record is one list, however it was scheduled. -/
theorem Told.group_once (h : host.Told) {root root' : Ref .record} {groups groups' : List (List (Ref .record))}
    {members members' : List (Ref .record)}
    (hmem : .scheduled root groups ∈ host.chronicle) (hmem' : .scheduled root' groups' ∈ host.chronicle)
    (hmembers : members ∈ groups) (hmembers' : members' ∈ groups') (href : ref ∈ members)
    (href' : ref ∈ members') : members = members' := by
  obtain rfl := h.scheduled_once hmem hmem' (List.mem_flatten_of_mem hmembers href)
    (List.mem_flatten_of_mem hmembers' href')
  obtain ⟨earlier, hearlier⟩ := exists_suffix_of_mem hmem
  obtain ⟨front, back, rfl⟩ := List.append_of_mem hmembers
  obtain ⟨-, hback, hfront⟩ := List.pairwise_append.1 (List.nodup_flatten.1 (h _ earlier hearlier).nodup).2
  rcases List.mem_append.1 hmembers' with hfound | hfound
  · exact (hfront members' hfound members List.mem_cons_self href' href).elim
  · rcases List.mem_cons.1 hfound with heq | hfound
    · exact heq.symm
    · exact ((List.pairwise_cons.1 hback).1 members' hfound href href').elim

/-- A record begins when those before it in its group have completed. -/
theorem Told.begins_after (h : host.Told) {root : Ref .record} {groups : List (List (Ref .record))}
    {front back : List (Ref .record)} (hscheduled : .scheduled root groups ∈ host.chronicle)
    (hmembers : front ++ ref :: back ∈ groups) (hbegins : (.moved ref .executing :: before) <:+ host.chronicle) :
    ∀ other ∈ front, .moved other .ready ∈ before := by
  obtain ⟨root', groups', done, rest, -, hscheduled', hmembers', -, hdone, -⟩ := (h _ before hbegins).2.2 rfl
  have hsame := h.group_once hscheduled (((List.suffix_cons _ _).trans hbegins).subset hscheduled') hmembers
    hmembers' (List.mem_append_right _ List.mem_cons_self) (List.mem_append_right _ List.mem_cons_self)
  have hnodup := List.nodup_cons.1 (List.perm_middle.nodup_iff.1 (h.group_nodup hscheduled hmembers))
  rw [List.mem_append, not_or] at hnodup
  obtain ⟨rfl, -, -⟩ := (List.append_cons_inj_of_notMem hnodup.1.1 hnodup.1.2).1 hsame
  exact hdone

namespace Coherent

/-- Nobody waits any more for what a settled record depends on. -/
theorem given_dependency (h : host.Coherent) (hbefore : before <:+ host.chronicle)
    (hsettled : host.SettledIn before ref) (hneeded : needed ∈ host.dependencies (host.record ref)) :
    host.GivenIn before needed := by
  rcases hsettled with ⟨record, hrecord, hsource⟩ | ⟨ready, href, hall⟩
  · have hown : host.record ref = record := congrArg (Option.getD · default) hrecord
    rw [hown] at hneeded
    unfold dependencies Record.requestKeys at hneeded
    rw [h.recorded.bare ref record hrecord hsource] at hneeded
    cases hneeded
  · -- It began, so nobody of its group waited for anything else.
    obtain ⟨earlier, hearlier⟩ := exists_suffix_of_mem (hall ref href)
    have hexecuting := (h.told _ earlier (hearlier.trans hbefore)).2.1 rfl
    obtain ⟨first, hfirst⟩ := exists_suffix_of_mem hexecuting
    have hsuffix := hfirst.trans ((List.suffix_cons _ _).trans hearlier)
    obtain ⟨root, groups, done, rest, own, -, -, hgrouped, -, hgiven⟩ :=
      (h.told _ first (hsuffix.trans hbefore)).2.2 rfl
    have hmember : ref ∈ done ++ ref :: rest := List.mem_append_right _ List.mem_cons_self
    obtain rfl : own = ready := Option.some.inj (((hgrouped ref).1 hmember).symm.trans href)
    rcases hgiven ref hmember needed hneeded with hsame | hgiven
    · exact .inl (.inr ⟨own, hsame, hall⟩)
    · exact hgiven.mono ((List.suffix_cons _ _).trans hsuffix)

/-- Whatever a settled record depends on has settled. -/
theorem settled_dependency (h : host.Coherent) (hprepared : host.Prepared) (hbefore : before <:+ host.chronicle)
    (hsettled : host.SettledIn before ref) (hneeded : needed ∈ host.dependencies (host.record ref)) :
    host.SettledIn before needed :=
  hprepared.settled hbefore (h.given_dependency hbefore hsettled hneeded)

theorem settled_relies (h : host.Coherent) (hprepared : host.Prepared) (hbefore : before <:+ host.chronicle)
    (hsettled : host.SettledIn before ref) (hrelies : host.Relies ref other) : host.SettledIn before other := by
  -- By induction on the way from a record to another one.
  induction hrelies with
  | refl => exact hsettled
  | tail _ hneeded ih => exact h.settled_dependency hprepared hbefore ih hneeded

/-- When a record begins, what it relies on has settled or shares its completion. -/
theorem begins_relies (h : host.Coherent) (hprepared : host.Prepared)
    (hbegins : (.moved ref .executing :: before) <:+ host.chronicle) (hrelies : host.Relies ref other) :
    host.SettledIn before other ∨ (host.record other).ready = (host.record ref).ready := by
  have hbefore := (List.suffix_cons _ _).trans hbegins
  obtain ⟨root, groups, done, rest, ready, -, -, hgrouped, -, hgiven⟩ := (h.told _ before hbegins).2.2 rfl
  have href := (hgrouped ref).1 (List.mem_append_right _ List.mem_cons_self)
  induction hrelies with
  | refl => exact .inr rfl
  | @tail middle last _ hneeded ih =>
    rcases ih with hsettled | hsame
    · exact .inl (h.settled_dependency hprepared hbefore hsettled hneeded)
    · rcases hgiven middle ((hgrouped middle).2 (hsame.trans href)) last hneeded with hready | hgiven
      · exact .inr (hready.trans href.symm)
      · exact .inl (hprepared.settled hbefore hgiven)

/-- What is entwined with a record that begins shares its completion. -/
theorem begins_entwined (h : host.Coherent) (hprepared : host.Prepared)
    (hbegins : (.moved ref .executing :: before) <:+ host.chronicle) (hentwined : host.Entwined ref other) :
    (host.record other).ready = (host.record ref).ready := by
  refine (h.begins_relies hprepared hbegins hentwined.1).resolve_left fun hsettled => ?_
  have hbefore := (List.suffix_cons _ _).trans hbegins
  rcases (h.settled_relies hprepared hbefore hsettled hentwined.2).readyIn with ⟨record, hrecord, hnone⟩ | hready
  · obtain ⟨found, hfound, hsource, -⟩ :=
      h.recorded.moved ref .executing (hbegins.subset List.mem_cons_self)
    obtain rfl := Option.some.inj (hrecord.symm.trans hfound)
    rw [hnone] at hsource
    cases hsource
  · exact (h.told.begins_first hbegins).2 hready

end Coherent

/-- Whether every record was past linking whenever a root was scheduled. -/
def preparedThroughout (host : Host) : Bool :=
  host.chronicle.tails.all fun
    | .scheduled _ _ :: before => host.records.refs.all fun ref => before.any fun
      | .moved other phase => other = ref && Phase.linked.rank ≤ phase.rank
      | _ => false
    | _ => true

theorem prepared_of_throughout (h : host.preparedThroughout = true) : host.Prepared := by
  intro root groups before hbefore ref _ hexist
  have hall := List.all_eq_true.1 h _ ((List.mem_tails _ _).2 hbefore)
  have href : ref ∈ host.records.refs := by
    obtain ⟨_, hrecord⟩ := Option.isSome_iff_exists.1 hexist
    have hlt : ref.index < host.records.size := (Array.getElem?_eq_some_iff.1 hrecord).1
    exact List.mem_map.2 ⟨ref.index, List.mem_range.2 hlt, rfl⟩
  obtain ⟨mark, hmark, hpast⟩ := List.any_eq_true.1 (List.all_eq_true.1 hall ref href)
  cases mark with
  | moved other phase =>
    obtain ⟨rfl, hrank⟩ : other = ref ∧ Phase.linked.rank ≤ phase.rank := by simpa using hpast
    exact .inr ⟨phase, hmark, hrank⟩
  | _ => cases hpast

/-- A module that imports another one, which imports a third one and is imported by it; the third one imports
a fourth one. The second one throws. -/
def woven : Host :=
  (Act.newCompartment (.simple "woven"
    [("main", ChainKind.moduleOf [.importAll "left" "left"] none),
      ("left", ChainKind.moduleOf [.importAll "right" "right"] (some [.raise (.string "late")])),
      ("right", ChainKind.moduleOf [.importAll "left" "left", .importAll "base" "base"] none),
      ("base", ChainKind.moduleOf [] none)]) default).2

/-- The first module is imported. -/
def wovenRun : Host :=
  (Act.importNow Act.lookOutside ⟨⟨0⟩, "main"⟩ woven).2

theorem wovenRun_run : Run default wovenRun :=
  Relation.ReflTransGen.tail (.single (.build _)) (.importNow ⟨⟨0⟩, "main"⟩ (by decide +kernel))

theorem wovenRun_prepared : wovenRun.Prepared :=
  prepared_of_throughout (by decide +kernel)

end Host

end ModuleLoader
