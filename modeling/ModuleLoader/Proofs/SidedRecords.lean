import ModuleLoader.Proofs.Sides
/-!
What the acting side may do to records, slots and namespaces: make new ones, and change those on its own
side. Both sides stay apart, and the other one is spared.
-/

namespace ModuleLoader
set_option autoImplicit false

/-- The acting side changed records and the store, and nothing else but the chronicle. -/
structure Sides.Fills (sides : Sides) (host host' : Host) : Prop where
  apart : sides.Apart host'
  remains : Remains host host'
  rest : host' = { host with
    store := host'.store
    records := host'.records
    chronicle := host'.chronicle }

/-- An action fills the acting side, and `post` holds in the end. -/
def Act.Fills {α : Type} (act : Act α) (sides : Sides) (host : Host) (post : α → Host → Prop) : Prop :=
  After host act fun result host' => sides.Fills host host' ∧ post result host'

variable {sides : Sides} {a b c host host' : Host}

namespace Sides.Fills

theorem refl (h : sides.Apart host) : sides.Fills host host :=
  ⟨h, .refl host, rfl⟩

theorem trans (hab : sides.Fills a b) (hbc : sides.Fills b c) : sides.Fills a c where
  apart := hbc.apart
  remains := hab.remains.trans hbc.remains
  rest := by
    have hrest := hbc.rest
    rw [hab.rest] at hrest
    exact hrest

theorem of_touches (h : sides.Apart host) (ht : sides.Touches host host')
    (rest : host' = { host with
      store := host'.store
      records := host'.records
      chronicle := host'.chronicle }) : sides.Fills host host' :=
  ⟨h.touch ht, ht.remains, rest⟩

end Sides.Fills

namespace Act.Fills

variable {α β : Type}

theorem mono {act : Act α} {post post' : α → Host → Prop} (h : act.Fills sides host post)
    (himp : ∀ result host', post result host' → post' result host') : act.Fills sides host post' :=
  ⟨h.1, himp _ _ h.2⟩

theorem pure {post : α → Host → Prop} {result : α} (h : sides.Apart host) (hpost : post result host) :
    (Pure.pure result : Act α).Fills sides host post :=
  ⟨.refl h, hpost⟩

theorem bind {act : Act α} {next : α → Act β} {post : α → Host → Prop} {post' : β → Host → Prop}
    (h : act.Fills sides host post)
    (hnext : ∀ result host', sides.Fills host host' → post result host' →
      (next result).Fills sides host' post') : (act >>= next).Fills sides host post' := by
  obtain ⟨hfills, hpost⟩ := h
  obtain ⟨hfills', hpost'⟩ := hnext _ _ hfills hpost
  exact ⟨hfills.trans hfills', hpost'⟩

theorem getBind {next : Host → Act β} {post : β → Host → Prop}
    (h : (next host).Fills sides host post) :
    (MonadState.get >>= next : Act β).Fills sides host post :=
  h

end Act.Fills

namespace Record.OnSide

variable {side : Bool} {record : Record}

/-- A record that was just made refers to its home and its namespace only. -/
theorem fresh (home : sides.of record.home = side) (space : host.OnSide sides side record.space)
    (environment : record.environment = default) (ready : record.ready = none) :
    record.OnSide host sides side := by
  refine ⟨home, space, fun name bound hbound => ?_, fun ref href => ?_⟩
  · rw [environment] at hbound
    cases hbound
  · cases ready.symm.trans href

theorem advance (h : record.OnSide host sides side) (next : Phase) :
    (record.advance next).OnSide host sides side := by
  unfold Record.advance
  split
  · exact ⟨h.home, h.space, h.slots, h.ready⟩
  · exact h

theorem fail (h : record.OnSide host sides side) (failure : Failure) :
    (record.fail failure).OnSide host sides side := by
  unfold Record.fail
  split
  · exact h
  · exact ⟨h.home, h.space, h.slots, h.ready⟩

end Record.OnSide

theorem Namespace.OnSide.none {side : Bool} {key : String} {snapshot : Bool} :
    (Namespace.mk key .empty snapshot).OnSide host sides side := by
  intro name slot hslot
  cases hslot

namespace Environment.OnSide

variable {side : Bool} {environment : Environment} {slot : Ref .slot}

theorem declareImport (h : environment.OnSide host sides side) (name : String)
    (hslot : host.OnSide sides side slot) :
    (environment.declareImport name slot).OnSide host sides side := by
  intro other bound hbound
  unfold Environment.declareImport at hbound
  rw [Table.get?_insert] at hbound
  split at hbound
  · cases hbound
    exact hslot
  · exact h other bound hbound

theorem declareLocal (h : environment.OnSide host sides side) (name : String)
    (hslot : host.OnSide sides side slot) :
    (environment.declareLocal name slot).OnSide host sides side := by
  intro other bound hbound
  unfold Environment.declareLocal at hbound
  rw [Table.get?_insertNew] at hbound
  split at hbound
  · cases hbound
    exact hslot
  · exact h other bound hbound

end Environment.OnSide

/-- The scope of a record on the acting side is there too, also that of one that was never made. -/
theorem Sides.Apart.environment (h : sides.Apart host) {ref : Ref .record}
    (href : sides.of ref = sides.active) :
    (host.record ref).environment.OnSide host sides sides.active := by
  by_cases hborn : host.Born ref
  · exact (h.record ⟨hborn, href⟩).2.slots
  · have hnone : host.records.get? ref = none :=
      Array.getElem?_eq_none (Nat.le_of_not_lt hborn)
    intro name bound hbound
    unfold Host.record at hbound
    rw [hnone] at hbound
    cases hbound

namespace Act

theorem onStore_bind {α β : Type} (change : StateM Store α) (next : α → StateM Store β) :
    onStore (change >>= next) = onStore change >>= fun result => onStore (next result) :=
  rfl

open Fills Sides

section
variable (h : sides.Apart host)
include h

theorem newSlot_fills (value : Option Value) :
    (onStore (Store.newSlot value)).Fills sides host fun slot host' =>
      host'.OnSide sides sides.active slot :=
  ⟨.of_touches h (.of_cells rfl rfl (.refl _) (.refl _) (.push h.next_slot trivial) (.refl _)
    (.refl _) (.refl _)) rfl, by
      refine ⟨?_, h.next_slot⟩
      change host.store.slots.size < (host.store.slots.push value).size
      rw [Arena.size_push]
      exact Nat.lt_succ_self _⟩

theorem setSlot_fills {slot : Ref .slot} (hslot : sides.of slot = sides.active) (value : Value) :
    (onStore (Store.setSlot slot value)).Fills sides host fun _ _ => True :=
  ⟨.of_touches h (.of_cells rfl rfl (.refl _) (.refl _) (.modify hslot fun _ _ => trivial) (.refl _)
    (.refl _) (.refl _)) rfl, trivial⟩

theorem newSpace_fills {space : Namespace} (hspace : space.OnSide host sides sides.active) :
    (onStore (Store.newSpace space)).Fills sides host fun ref host' =>
      host'.OnSide sides sides.active ref := by
  have hborn {k : Noun} (ref : Ref k) (href : host.Born ref) :
      Host.Born { host with store := { host.store with spaces := host.store.spaces.push space } } ref := by
    cases k with
    | «exports» =>
      change ref.index < (host.store.spaces.push space).size
      rw [Arena.size_push]
      exact Nat.lt_succ_of_lt href
    | _ => exact href
  refine ⟨.of_touches h (.of_cells rfl rfl (.refl _) (.push h.next_space (hspace.mono hborn)) (.refl _)
    (.refl _) (.refl _) (.refl _)) rfl, ?_, h.next_space⟩
  change host.store.spaces.size < (host.store.spaces.push space).size
  rw [Arena.size_push]
  exact Nat.lt_succ_self _

theorem define_fills {space : Ref .exports} {slot : Ref .slot}
    (hspace : sides.of space = sides.active) (hslot : host.OnSide sides sides.active slot)
    (name : String) : (onStore (Store.define space name slot)).Fills sides host fun _ _ => True := by
  have hborn {k : Noun} (ref : Ref k) (href : host.Born ref) :
      Host.Born (onStore (Store.define space name slot) host).2 ref := by
    cases k with
    | «exports» => exact Nat.lt_of_lt_of_eq href (Arena.size_modify _ _ _).symm
    | _ => exact href
  refine ⟨.of_touches h (.of_cells rfl rfl (.refl _) (.modify hspace fun found hfound => ?_) (.refl _)
    (.refl _) (.refl _) (.refl _)) rfl, trivial⟩
  intro other bound hbound
  dsimp only at hbound
  rw [Table.get?_insert] at hbound
  split at hbound
  · cases hbound
    exact hslot.mono hborn
  · have hgood := h.spaces space found hfound other bound hbound
    rw [hspace] at hgood
    exact hgood.mono hborn

theorem newRecord_fills {record : Record} (hrecord : record.OnSide host sides sides.active) :
    (newRecord record).Fills sides host fun ref host' => host'.OnSide sides sides.active ref := by
  have hborn {k : Noun} (ref : Ref k) (href : host.Born ref) :
      Host.Born { host with records := host.records.push record } ref := by
    cases k with
    | record =>
      change ref.index < (host.records.push record).size
      rw [Arena.size_push]
      exact Nat.lt_succ_of_lt href
    | _ => exact href
  refine ⟨.of_touches h (.of_cells rfl rfl (.push h.next_record (hrecord.mono hborn)) (.refl _) (.refl _)
    (.refl _) (.refl _) (.refl _)) rfl, ?_, h.next_record⟩
  change host.records.size < (host.records.push record).size
  rw [Arena.size_push]
  exact Nat.lt_succ_self _

theorem changeRecord_fills {ref : Ref .record} {f : Record → Record}
    (href : sides.of ref = sides.active)
    (hf : ∀ record, record.OnSide host sides sides.active →
      (f record).OnSide host sides sides.active) :
    (changeRecord ref f).Fills sides host fun _ _ => True := by
  have hborn {k : Noun} (other : Ref k) (hother : host.Born other) :
      Host.Born (changeRecord ref f host).2 other := by
    cases k with
    | record => exact Nat.lt_of_lt_of_eq hother (Arena.size_modify _ _ _).symm
    | _ => exact hother
  refine ⟨.of_touches h (.of_cells rfl rfl (.modify href fun record hrecord => ?_) (.refl _) (.refl _)
    (.refl _) (.refl _) (.refl _)) rfl, trivial⟩
  have hgood := h.records ref record hrecord
  rw [href] at hgood
  exact (hf record hgood).mono hborn

/-- What is noted in the chronicle is of no matter to sides. -/
theorem mark_fills (marks : List Milestone) : (mark marks).Fills sides host fun _ _ => True :=
  ⟨.of_touches h (.of_cells rfl rfl (.refl _) (.refl _) (.refl _) (.refl _) (.refl _) (.refl _)) rfl, trivial⟩

theorem advance_fills {ref : Ref .record} (href : sides.of ref = sides.active) (next : Phase) :
    (changeRecord ref fun record => record.advance next).Fills sides host fun _ _ => True :=
  changeRecord_fills h href fun _ hrecord => hrecord.advance next

theorem fail_fills {ref : Ref .record} (href : sides.of ref = sides.active) (failure : Failure) :
    (changeRecord ref fun record => record.fail failure).Fills sides host fun _ _ => True :=
  changeRecord_fills h href fun _ hrecord => hrecord.fail failure

end

theorem failAll_fills (failure : Failure) : ∀ (refs : List (Ref .record)) {host : Host},
    sides.Apart host → (∀ ref ∈ refs, sides.of ref = sides.active) →
      (failAll failure refs).Fills sides host fun _ _ => True := by
  intro refs
  induction refs with
  | nil => exact fun h _ => .pure h trivial
  | cons ref rest ih =>
    intro host h hrefs
    refine (fail_fills h (hrefs ref List.mem_cons_self) failure).bind fun _ _ hfills _ => ?_
    exact ih hfills.apart fun other hother => hrefs other (List.mem_cons_of_mem ref hother)

theorem storedSlots_fills : ∀ (entries : List (String × Value)) {host : Host}, sides.Apart host →
    (onStore (Store.newSlots entries)).Fills sides host fun slots host' =>
      ∀ pair ∈ slots, host'.OnSide sides sides.active pair.2 := by
  intro entries
  induction entries with
  | nil => exact fun h => .pure h fun _ hmem => nomatch hmem
  | cons entry rest ih =>
    intro host h
    unfold Store.newSlots
    rw [onStore_bind]
    refine (newSlot_fills h (some entry.2)).bind fun slot made hmade hslot => ?_
    rw [onStore_bind]
    refine (ih hmade.apart).bind fun slots last hlast hslots => .pure hlast.apart fun pair hmem => ?_
    rcases List.mem_cons.1 hmem with rfl | hmem
    · exact hslot.mono hlast.remains.born
    · exact hslots pair hmem

theorem snapshot_fills (h : sides.Apart host) (key : String) (object : Ref .object) :
    (onStore (Store.snapshot key object)).Fills sides host fun space host' =>
      host'.OnSide sides sides.active space := by
  have hmake : (onStore (Store.newSlots (host.store.object object).properties.entries) >>= fun slots =>
      onStore (Store.newSpace ⟨key, ⟨slots⟩, true⟩)).Fills sides host fun space host' =>
        host'.OnSide sides sides.active space := by
    refine (storedSlots_fills _ h).bind fun slots made hmade hslots => ?_
    exact newSpace_fills hmade.apart fun name slot hslot => hslots _ (Table.mem_of_find hslot)
  exact hmake

theorem assign_fills (h : sides.Apart host) {environment : Environment}
    (henvironment : environment.OnSide host sides sides.active) (name : String) (value : Value) :
    (onStore (environment.assign name value)).Fills sides host fun result host' =>
      ∀ assigned, result = .ok assigned → assigned.OnSide host' sides sides.active := by
  unfold Environment.assign
  split
  · rename_i bound hbound
    split
    · rw [onStore_bind]
      refine (setSlot_fills h (henvironment name bound hbound).2 value).bind fun _ last hlast _ => ?_
      refine .pure hlast.apart ?_
      rintro _ ⟨⟩
      exact henvironment.mono hlast.remains.born
    · refine .pure h ?_
      rintro _ ⟨⟩
  · rw [onStore_bind]
    refine (newSlot_fills h (some value)).bind fun slot last hlast hslot => .pure hlast.apart ?_
    rintro _ ⟨⟩ other found hfound
    dsimp only at hfound
    rw [Table.get?_insert] at hfound
    split at hfound
    · cases hfound
      exact hslot
    · exact (henvironment other found hfound).mono hlast.remains.born

theorem assignIn_fills (h : sides.Apart host) {ref : Ref .record}
    (href : sides.of ref = sides.active) (name : String) (value : Value) :
    (assignIn ref name value).Fills sides host fun _ _ => True := by
  refine .getBind ((assign_fills h (h.environment href) name value).bind
    fun result stored hstored hresult => ?_)
  cases result with
  | error failure => exact .pure hstored.apart trivial
  | ok environment =>
    refine (changeRecord_fills hstored.apart href fun record hrecord => ?_).bind
      fun _ last hlast _ => .pure hlast.apart trivial
    exact ⟨hrecord.home, hrecord.space, hresult environment rfl, hrecord.ready⟩

theorem conclude_fills (h : sides.Apart host) {ref : Ref .record}
    (href : sides.of ref = sides.active) (result : Except Value Unit) :
    (conclude ref result).Fills sides host fun _ _ => True := by
  cases result with
  | ok _ =>
    exact (advance_fills h href .ready).bind fun _ _ hlast _ => .pure hlast.apart trivial
  | error thrown =>
    exact .getBind ((fail_fills h href _).bind fun _ _ hlast _ => .pure hlast.apart trivial)

end Act

end ModuleLoader
