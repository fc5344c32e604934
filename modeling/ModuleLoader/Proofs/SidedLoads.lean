import ModuleLoader.Proofs.LoadWaits
import ModuleLoader.Proofs.SidedRecords
/-!
Loading keeps sides apart: a descriptor that leads nowhere into the other side makes a record on its own, or
an alias of a node there, and a record of the other side never gets into the memo.
-/

namespace ModuleLoader
set_option autoImplicit false

/-- Sides as a law of loading, for whoever loads on one of them. -/
def Sides.law (sides : Sides) (side : Bool) : LoadLaw where
  inv := sides.Apart
  rel := Remains
  within ref := sides.of ref = side
  near a b := sides.of a = sides.of b
  tells host node descriptor :=
    host.Built node.compartment ∧ host.Confines sides node.compartment descriptor
  fits host node entry := entry.OnSide host sides (sides.of node.compartment)

variable {sides : Sides} {host host' : Host} {node : Node}

/-- An alias of a compartment points to its own side. -/
theorem Host.Confines.points {descriptor : Descriptor} {target : Node}
    (h : host.Confines sides node.compartment descriptor)
    (hpoints : host.pointsTo node descriptor = .ok (some target)) :
    sides.of node.compartment = sides.of target.compartment := by
  cases descriptor with
  | compiled source => cases hpoints
  | «virtual» source => cases hpoints
  | exportsAlias value => cases hpoints
  | instanceAlias key owner =>
    cases hpoints
    cases owner with
    | none => rfl
    | some owner => exact Eq.symm h
  | recordAlias key =>
    have howner : ∃ owner, host.ancestorAnswering node.compartment key = some owner ∧
        target = ⟨owner, key⟩ := by
      unfold Host.pointsTo Host.aliasOwner at hpoints
      dsimp only at hpoints
      cases hanswering : host.ancestorAnswering node.compartment key with
      | none =>
        rw [hanswering] at hpoints
        cases hpoints
      | some owner =>
        rw [hanswering] at hpoints
        cases hpoints
        exact ⟨owner, rfl, rfl⟩
    obtain ⟨owner, hanswering, rfl⟩ := howner
    refine (h owner (Host.descends_of_mem ?_)).symm
    unfold Host.ancestorAnswering at hanswering
    dsimp only at hanswering
    split at hanswering
    · cases hanswering
      rename_i hfind
      exact List.mem_of_find?_eq_some hfind
    · split at hanswering
      · cases hanswering
        rename_i hfind
        exact List.mem_of_find?_eq_some hfind
      · exact List.mem_of_mem_head? hanswering

namespace Act

open Fills

/-- A literal is a namespace only if it names one that is memoized. -/
theorem evaluate_exports (host : Host) (literal : Literal) :
    After host (evaluate literal) fun value _ => ∀ space, value = .exports space →
      ∃ label key owner record, literal = .exportsOf label key ∧
        host.labels.get? label = some owner ∧ host.lookup? ⟨owner, key⟩ = some record ∧
          (host.record record).space = space := by
  cases literal with
  | exportsOf label key =>
    unfold evaluate exportsNamed
    rw [after_bind, after_get]
    split
    · exact nofun
    · rename_i owner howner
      split
      · exact nofun
      · rename_i record hrecord
        rintro space ⟨⟩
        exact ⟨label, key, owner, record, rfl, howner, hrecord, rfl⟩
  | undefined => exact nofun
  | null => exact nofun
  | boolean value => exact nofun
  | number value => exact nofun
  | string value => exact nofun
  | array items =>
    unfold evaluate
    exact nofun
  | object members =>
    unfold evaluate
    exact nofun
  | named name =>
    unfold evaluate
    exact nofun

/-- What a hook of the acting side offers is a descriptor that leads nowhere into the other side, once it
is built. -/
theorem build_confines (h : sides.Apart host) {blueprint : Blueprint}
    (hsafe : host.Safe sides node.compartment blueprint) (home : String) :
    After host (build home blueprint) fun result _ =>
      ∀ descriptor, result = .ok descriptor → host.Confines sides node.compartment descriptor := by
  unfold build
  cases blueprint with
  | module compiled bindings body async needsImport needsMeta metaProperties =>
    dsimp only
    split
    · exact nofun
    · rw [after_bind]
      have hany : After host (evaluateMembers metaProperties) fun _ _ => True := trivial
      refine hany.mono fun properties after _ => ?_
      rintro _ ⟨⟩
      cases compiled <;> trivial
  | document text =>
    dsimp only
    split
    · exact nofun
    · rintro _ ⟨⟩
      trivial
  | text content =>
    rintro _ ⟨⟩
    trivial
  | redirect key label =>
    rintro _ ⟨⟩
    cases label with
    | none => trivial
    | some label =>
      change host.Confines sides node.compartment (.instanceAlias key (host.labels.get? label))
      cases howner : host.labels.get? label with
      | none => trivial
      | some owner => exact hsafe owner howner
  | record key =>
    rintro _ ⟨⟩
    exact hsafe
  | «exports» literal =>
    dsimp only
    rw [after_bind]
    refine (evaluate_exports host literal).mono fun value after hvalue => ?_
    rintro _ ⟨⟩
    cases value with
    | «exports» space =>
      obtain ⟨label, key, owner, record, rfl, howner, hlookup, rfl⟩ := hvalue space rfl
      obtain ⟨entry, hentry, rfl⟩ := Option.map_eq_some_iff.1 hlookup
      have hside := (h.record (h.memo ⟨owner, key⟩ entry hentry).record).2.space
      rcases hsafe owner howner with hnear | hnone
      · rw [hnear] at hside
        exact hside
      · cases hnone.symm.trans hentry
    | _ => trivial

theorem newExposure_fills (h : sides.Apart host) (hnode : sides.of node.compartment = sides.active)
    {space : Ref .exports} (hspace : host.OnSide sides sides.active space) :
    (newExposure node space).Fills sides host fun result host' =>
      ∀ entry, result = .entry entry → entry.OnSide host' sides sides.active := by
  refine .getBind ((newRecord_fills h (.fresh hnode hspace rfl rfl)).bind fun ref made hmade href => ?_)
  refine .pure hmade.apart ?_
  rintro _ ⟨⟩
  exact href

theorem newModule_fills (h : sides.Apart host) (hnode : sides.of node.compartment = sides.active)
    (source : Source) : (newModule node source).Fills sides host fun result host' =>
      ∀ entry, result = .ok (.entry entry) → entry.OnSide host' sides sides.active := by
  refine .getBind ?_
  dsimp only
  split
  · exact .pure h nofun
  · refine (newSpace_fills h .none).bind fun space spaced hspaced hspace => ?_
    refine (newRecord_fills hspaced.apart (.fresh hnode hspace rfl rfl)).bind
      fun ref made hmade href => .pure hmade.apart ?_
    rintro _ ⟨⟩
    exact href

/-- A record that is made for a node of the acting side refers to that side only. -/
theorem interpret_fills (h : sides.Apart host) (hnode : sides.of node.compartment = sides.active)
    {descriptor : Descriptor} (hconfines : host.Confines sides node.compartment descriptor) :
    (interpret node descriptor).Fills sides host fun result host' =>
      ∀ entry, result = .ok (.entry entry) → entry.OnSide host' sides sides.active := by
  cases descriptor with
  | compiled source => exact newModule_fills h hnode source
  | «virtual» source => exact newModule_fills h hnode source
  | exportsAlias value =>
    cases value with
    | «exports» space =>
      have hspace : host.OnSide sides sides.active space := hnode ▸ hconfines
      refine (newExposure_fills h hnode hspace).bind fun result made hmade hresult => ?_
      refine .pure hmade.apart ?_
      rintro entry ⟨⟩
      exact hresult entry rfl
    | object object =>
      refine (snapshot_fills h node.key object).bind fun space spaced hspaced hspace => ?_
      refine (newExposure_fills hspaced.apart hnode hspace).bind fun result made hmade hresult => ?_
      refine .pure hmade.apart ?_
      rintro entry ⟨⟩
      exact hresult entry rfl
    | _ => exact .pure h nofun
  | instanceAlias key owner =>
    cases owner with
    | some owner => exact .pure h nofun
    | none =>
      by_cases hself : key = node.key
      · rw [show interpret node (.instanceAlias key none) = pure (.error (.aliasCycle key)) from
          if_pos hself]
        exact .pure h nofun
      · rw [show interpret node (.instanceAlias key none) =
          pure (.ok (.elsewhere ⟨node.compartment, key⟩)) from if_neg hself]
        exact .pure h nofun
  | recordAlias key =>
    refine .getBind ?_
    split <;> exact .pure h nofun

end Act

/-- Signals, calls and loads are of no matter to sides. -/
theorem Sides.Touches.of_stirs (sides : Sides) (h : Stirs host host') : sides.Touches host host' := by
  have hmemo (ref : Ref .compartment) :
      (host'.compartment ref).memo = (host.compartment ref).memo :=
    h.part ref Compartment.memo fun _ => rfl
  refine ⟨h.labels, h.size, fun ref => ?_, fun ref _ => hmemo ref, fun node entry hentry => .inl ?_,
    .of_eq h.records, .of_eq h.spaces, .of_eq h.slots, .of_eq h.readies, .of_eq h.drivers,
    .of_eq h.verdicts⟩
  · exact congrArg (fun compartment : Compartment => { compartment with memo := .empty })
      (h.compartment ref)
  · unfold Host.entryAt? at hentry ⊢
    rw [hmemo] at hentry
    exact hentry

theorem Sides.Apart.stirs (h : sides.Apart host) (hstirs : Stirs host host') : sides.Apart host' :=
  h.touch (.of_stirs sides hstirs)

/-- An entry of a node of the acting side goes into its memo. -/
theorem Sides.Touches.of_entered {entry : Entry} (hnode : sides.of node.compartment = sides.active)
    (hentry : entry.OnSide host sides sides.active) : sides.Touches host (host.entered node entry) := by
  have hborn {k : Noun} (ref : Ref k) (href : host.Born ref) :
      (host.entered node entry).Born ref := by
    cases k <;> exact href
  refine ⟨rfl, Arena.size_modify _ _ _, fun ref => ?_, fun ref href => ?_, fun other found hfound => ?_,
    .refl _, .refl _, .refl _, .refl _, .refl _, .refl _⟩
  · rw [Host.compartment_entered]
    split <;> rfl
  · rw [Host.compartment_entered, if_neg]
    intro hsame
    exact href (hsame.1 ▸ hnode)
  · by_cases hbuilt : host.Built node.compartment
    · rw [Host.entryAt?_entered hbuilt] at hfound
      split at hfound
      · rename_i hsame
        cases hfound
        exact .inr ⟨hsame.1 ▸ hnode, hentry.mono hborn⟩
      · exact .inl hfound
    · unfold Host.entryAt? at hfound ⊢
      rw [Host.compartment_entered, if_neg fun hsame => hbuilt hsame.2] at hfound
      exact .inl hfound

theorem Sides.law_kept (sides : Sides) : (sides.law sides.active).Kept where
  refl := .refl
  trans := .trans
  near_refl _ := rfl
  near_trans := Eq.trans
  within_near hwithin hnear := hnear.symm.trans hwithin
  hooked {_ _ node} hrel hhooked :=
    ⟨(Remains.part hrel node.compartment Compartment.loadHook fun _ => rfl) ▸ hhooked.hook,
      (Remains.table hrel node.compartment) ▸ hhooked.table⟩
  offers hrel hoffers := Remains.offers hrel |>.2 hoffers
  tells_mono hrel htells := ⟨Remains.built hrel htells.1, Remains.confines hrel htells.2⟩
  fits_mono hrel hfits := Entry.OnSide.mono (Remains.born hrel) hfits
  stirs hinv hstirs := ⟨hinv.stirs hstirs, (Sides.Touches.of_stirs sides hstirs).remains⟩
  tables hinv htable := ⟨Host.built_of_table htable, hinv.tables _ _ htable⟩
  takes {host node descriptor host'} hinv hwithin _ htakes := by
    have hsince := (Sides.Touches.of_stirs sides (.of_aside htakes.aside)).remains
    obtain ⟨blueprint, before, hoffers, haside, hbuild⟩ := htakes
    refine ⟨hsince.built hoffers.built, ?_⟩
    have hbefore : sides.Apart before := hinv.stirs (.of_aside haside)
    have hsafe := hbefore.offers node blueprint hwithin ((Host.offers_aside haside).2 hoffers)
    have hbuilt := Act.build_confines hbefore hsafe (host.compartment node.compartment).label
    have hlast := Act.build_aside (host.compartment node.compartment).label blueprint before
    unfold After at hbuilt
    rw [hbuild] at hbuilt hlast
    exact (Sides.Touches.of_stirs sides (.of_aside hlast)).remains.confines
      (hbuilt descriptor rfl)
  points _ htells hpoints := Host.Confines.points htells.2 hpoints
  interprets {_ node _} hinv hwithin htells := by
    refine After.mono (Act.interpret_fills hinv hwithin htells.2) fun result host' hafter => ?_
    obtain ⟨hfills, hentry⟩ := hafter
    refine ⟨hfills.apart, hfills.remains, fun entry heq => ?_⟩
    have hactive : sides.of node.compartment = sides.active := hwithin
    change Entry.OnSide host' sides (sides.of node.compartment) entry
    rw [hactive]
    exact hentry entry heq
  memo hinv hentry := hinv.memo _ _ hentry
  lends {host node target entry} _ hfits hnear := by
    have hnear : sides.of node.compartment = sides.of target.compartment := hnear
    change Entry.OnSide host sides (sides.of node.compartment) _
    rw [hnear]
    split
    · exact hfits
    · cases entry with
      | own record => exact ⟨rfl, hfits⟩
      | borrowed owner key record => exact hfits
  continues _ hfits next hnext := (Entry.OnSide.continues hfits rfl next hnext).symm
  enters {host node entry} hinv hwithin hfits := by
    have hactive : sides.of node.compartment = sides.active := hwithin
    have hentry : entry.OnSide host sides sides.active := hactive ▸ hfits
    have htouches := Sides.Touches.of_entered hwithin hentry
    exact ⟨hinv.touch htouches, htouches.remains⟩

end ModuleLoader
