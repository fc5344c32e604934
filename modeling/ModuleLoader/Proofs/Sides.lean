import Mathlib.Logic.Relation
import ModuleLoader.Proofs.LoadLaws
/-!
Two sides of a host that lead nowhere into each other. Every thing is on one side, and refers only to
things on its own. One side acts at a time: what it changes, and what it creates, is on its side.
-/

namespace ModuleLoader
set_option autoImplicit false

/-- On which side each thing is, which side acts, and the host in which it began to act. -/
structure Sides where
  of : {k : Noun} → Ref k → Bool
  active : Bool
  origin : Host

namespace Host

/-- The thing exists. Of other kinds than these it is never asked. -/
def Born (host : Host) : {k : Noun} → Ref k → Prop
  | .slot, ref => ref.index < host.store.slots.size
  | .exports, ref => ref.index < host.store.spaces.size
  | .record, ref => ref.index < host.records.size
  | .ready, ref => ref.index < host.readies.size
  | .driver, ref => ref.index < host.drivers.size
  | .verdict, ref => ref.index < host.verdicts.size
  | _, _ => True

/-- The thing exists, and is on that side. -/
def OnSide (host : Host) (sides : Sides) (side : Bool) {k : Noun} (ref : Ref k) : Prop :=
  host.Born ref ∧ sides.of ref = side

/-- The second compartment is an ancestor of the first. -/
def Descends (host : Host) : Ref .compartment → Ref .compartment → Prop :=
  Relation.TransGen fun ref parent => (host.compartment ref).parent = some parent

end Host

/-- The slots of a scope are on that side. -/
def Environment.OnSide (host : Host) (sides : Sides) (side : Bool) (environment : Environment) : Prop :=
  ∀ name bound, environment.bounds.get? name = some bound → host.OnSide sides side bound.slot

/-- Whatever a record refers to is on that side. -/
structure Record.OnSide (host : Host) (sides : Sides) (side : Bool) (record : Record) : Prop where
  home : sides.of record.home = side
  space : host.OnSide sides side record.space
  slots : record.environment.OnSide host sides side
  ready : ∀ ready, record.ready = some ready → host.OnSide sides side ready

/-- All exports of a namespace are on that side. -/
def Namespace.OnSide (host : Host) (sides : Sides) (side : Bool) (space : Namespace) : Prop :=
  ∀ name slot, space.exports.get? name = some slot → host.OnSide sides side slot

/-- The record of an entry is on that side, and so is the compartment it is borrowed from. -/
def Entry.OnSide (host : Host) (sides : Sides) (side : Bool) : Entry → Prop
  | .own record => host.OnSide sides side record
  | .borrowed owner _ record => sides.of owner = side ∧ host.OnSide sides side record

/-- A descriptor of a compartment does not lead to the other side. -/
def Host.Confines (host : Host) (sides : Sides) (ref : Ref .compartment) : Descriptor → Prop
  | .instanceAlias _ (some owner) => sides.of owner = sides.of ref
  | .recordAlias _ => ∀ ancestor, host.Descends ref ancestor → sides.of ancestor = sides.of ref
  | .exportsAlias (.exports space) => host.OnSide sides (sides.of ref) space
  | _ => True

/-- What a hook of the acting side offers does not lead to the other side as things are. -/
def Host.Safe (host : Host) (sides : Sides) (ref : Ref .compartment) : Blueprint → Prop
  | .redirect _ (some label) => ∀ owner, host.labels.get? label = some owner →
      sides.of owner = sides.of ref
  | .record _ => ∀ ancestor, host.Descends ref ancestor → sides.of ancestor = sides.of ref
  | .exports (.exportsOf label key) => ∀ owner, host.labels.get? label = some owner →
      sides.of owner = sides.of ref ∨ host.entryAt? ⟨owner, key⟩ = none
  | _ => True

/-- Compartments keep what they were told, and nothing disappears. -/
structure Remains (host host' : Host) : Prop where
  labels : host'.labels = host.labels
  size : host'.compartments.size = host.compartments.size
  compartment : ∀ ref,
    { host'.compartment ref with calls := .empty, loading := .empty, memo := .empty } =
      { host.compartment ref with calls := .empty, loading := .empty, memo := .empty }
  born : ∀ {k : Noun} (ref : Ref k), host.Born ref → host'.Born ref

/-- What is on the other side is as it was in the beginning. -/
structure Sides.Spares (sides : Sides) (host : Host) : Prop where
  memo : ∀ ref, sides.of ref ≠ sides.active →
    (host.compartment ref).memo = (sides.origin.compartment ref).memo
  records : ∀ ref, sides.of ref ≠ sides.active →
    host.records.get? ref = sides.origin.records.get? ref
  spaces : ∀ ref, sides.of ref ≠ sides.active →
    host.store.spaces.get? ref = sides.origin.store.spaces.get? ref
  slots : ∀ ref, sides.of ref ≠ sides.active →
    host.store.slots.get? ref = sides.origin.store.slots.get? ref
  readies : ∀ ref, sides.of ref ≠ sides.active →
    host.readies.get? ref = sides.origin.readies.get? ref
  drivers : ∀ ref, sides.of ref ≠ sides.active →
    host.drivers.get? ref = sides.origin.drivers.get? ref
  verdicts : ∀ ref, sides.of ref ≠ sides.active →
    host.verdicts.get? ref = sides.origin.verdicts.get? ref

/-- Everything in a host refers to its own side only, and the other side was spared so far. What is created
next will be on the acting side. -/
structure Sides.Apart (sides : Sides) (host : Host) : Prop where
  records : ∀ ref record, host.records.get? ref = some record →
    record.OnSide host sides (sides.of ref)
  spaces : ∀ ref space, host.store.spaces.get? ref = some space →
    space.OnSide host sides (sides.of ref)
  memo : ∀ node entry, host.entryAt? node = some entry →
    entry.OnSide host sides (sides.of node.compartment)
  tables : ∀ (node : Node) (descriptor : Descriptor),
    (host.compartment node.compartment).table.get? node.key = some descriptor →
      host.Confines sides node.compartment descriptor
  offers : ∀ (node : Node) (blueprint : Blueprint),
    sides.of node.compartment = sides.active → host.Offers node blueprint →
      host.Safe sides node.compartment blueprint
  fresh : ∀ {k : Noun} (ref : Ref k), ¬ host.Born ref → sides.of ref = sides.active
  spares : sides.Spares host

/-- Cells of an arena changed, or were added, and they are on the acting side. -/
structure Sides.Alters {k : Noun} {α : Type} (sides : Sides) (good : α → Prop)
    (before after : Arena k α) : Prop where
  size : before.size ≤ after.size
  cells : ∀ ref, after.get? ref = before.get? ref ∨
    sides.of ref = sides.active ∧ ∀ value, after.get? ref = some value → good value

/-- A change that the acting side may make. -/
structure Sides.Touches (sides : Sides) (host host' : Host) : Prop where
  labels : host'.labels = host.labels
  size : host'.compartments.size = host.compartments.size
  compartment : ∀ ref,
    { host'.compartment ref with calls := .empty, loading := .empty, memo := .empty } =
      { host.compartment ref with calls := .empty, loading := .empty, memo := .empty }
  memo : ∀ ref, sides.of ref ≠ sides.active →
    (host'.compartment ref).memo = (host.compartment ref).memo
  entries : ∀ node entry, host'.entryAt? node = some entry → host.entryAt? node = some entry ∨
    sides.of node.compartment = sides.active ∧ entry.OnSide host' sides sides.active
  records : sides.Alters (Record.OnSide host' sides sides.active) host.records host'.records
  spaces : sides.Alters (Namespace.OnSide host' sides sides.active) host.store.spaces
    host'.store.spaces
  slots : sides.Alters (fun _ => True) host.store.slots host'.store.slots
  readies : sides.Alters (fun _ => True) host.readies host'.readies
  drivers : sides.Alters (fun _ => True) host.drivers host'.drivers
  verdicts : sides.Alters (fun _ => True) host.verdicts host'.verdicts

variable {sides sides' : Sides} {side : Bool} {a b c host host' : Host}

/-- Whoever is found among the ancestors is one. -/
theorem Host.descends_of_mem {ref ancestor : Ref .compartment} (h : ancestor ∈ host.ancestors ref) :
    host.Descends ref ancestor := by
  have hupTo (count : Nat) : ∀ ref, ancestor ∈ host.ancestorsUpTo count (host.compartment ref).parent →
      host.Descends ref ancestor := by
    induction count with
    | zero => exact fun _ hmem => nomatch hmem
    | succ count ih =>
      intro ref hmem
      cases hparent : (host.compartment ref).parent with
      | none =>
        rw [hparent] at hmem
        cases hmem
      | some parent =>
        rw [hparent] at hmem
        rcases List.mem_cons.1 hmem with rfl | hmem
        · exact .single hparent
        · exact .head hparent (ih parent hmem)
  exact hupTo _ ref h

section
variable (hborn : ∀ {k : Noun} (ref : Ref k), host.Born ref → host'.Born ref ∧ sides'.of ref = sides.of ref)
include hborn

/-- What exists in one host exists in the other, on the same side as other sides have it. -/
theorem Host.OnSide.follows {k : Noun} {ref : Ref k} (h : host.OnSide sides side ref) :
    host'.OnSide sides' side ref :=
  ⟨(hborn ref h.1).1, (hborn ref h.1).2.trans h.2⟩

theorem Environment.OnSide.follows {environment : Environment} (h : environment.OnSide host sides side) :
    environment.OnSide host' sides' side :=
  fun name bound hbound => (h name bound hbound).follows hborn

theorem Record.OnSide.follows {record : Record} (h : record.OnSide host sides side) :
    record.OnSide host' sides' side where
  home := (hborn record.home trivial).2.trans h.home
  space := h.space.follows hborn
  slots := h.slots.follows hborn
  ready ready hready := (h.ready ready hready).follows hborn

theorem Namespace.OnSide.follows {space : Namespace} (h : space.OnSide host sides side) :
    space.OnSide host' sides' side :=
  fun name slot hslot => (h name slot hslot).follows hborn

theorem Entry.OnSide.follows {entry : Entry} (h : entry.OnSide host sides side) :
    entry.OnSide host' sides' side := by
  cases entry with
  | own record => exact Host.OnSide.follows hborn h
  | borrowed owner key record =>
    exact ⟨(hborn owner trivial).2.trans h.1, Host.OnSide.follows hborn h.2⟩

end

section
variable (hborn : ∀ {k : Noun} (ref : Ref k), host.Born ref → host'.Born ref)
include hborn

theorem Host.OnSide.mono {k : Noun} {ref : Ref k} (h : host.OnSide sides side ref) :
    host'.OnSide sides side ref :=
  h.follows fun ref href => ⟨hborn ref href, rfl⟩

theorem Environment.OnSide.mono {environment : Environment} (h : environment.OnSide host sides side) :
    environment.OnSide host' sides side :=
  h.follows fun ref href => ⟨hborn ref href, rfl⟩

theorem Record.OnSide.mono {record : Record} (h : record.OnSide host sides side) :
    record.OnSide host' sides side :=
  h.follows fun ref href => ⟨hborn ref href, rfl⟩

theorem Namespace.OnSide.mono {space : Namespace} (h : space.OnSide host sides side) :
    space.OnSide host' sides side :=
  h.follows fun ref href => ⟨hborn ref href, rfl⟩

theorem Entry.OnSide.mono {entry : Entry} (h : entry.OnSide host sides side) :
    entry.OnSide host' sides side :=
  h.follows fun ref href => ⟨hborn ref href, rfl⟩

end

theorem Entry.OnSide.record {entry : Entry} (h : entry.OnSide host sides side) :
    host.OnSide sides side entry.record := by
  cases entry with
  | own record => exact h
  | borrowed owner key record => exact h.2

/-- The closure of an entry continues on its own side. -/
theorem Entry.OnSide.continues {entry : Entry} (h : entry.OnSide host sides side)
    {ref : Ref .compartment} (href : sides.of ref = side) :
    ∀ next ∈ host.continuations ref entry, sides.of next.compartment = side := by
  intro next hnext
  cases entry with
  | own record =>
    obtain ⟨key, -, rfl⟩ := List.mem_map.1 hnext
    exact href
  | borrowed owner key record =>
    obtain rfl := List.mem_singleton.1 hnext
    exact h.1

namespace Remains

theorem refl (host : Host) : Remains host host :=
  ⟨rfl, rfl, fun _ => rfl, fun _ => id⟩

theorem trans (hab : Remains a b) (hbc : Remains b c) : Remains a c where
  labels := hbc.labels.trans hab.labels
  size := hbc.size.trans hab.size
  compartment ref := (hbc.compartment ref).trans (hab.compartment ref)
  born ref h := hbc.born ref (hab.born ref h)

theorem built (h : Remains host host') {ref : Ref .compartment} (href : host.Built ref) :
    host'.Built ref := by
  unfold Host.Built
  rw [h.size]
  exact href

/-- Every part of a compartment but its calls, its loads and its memo is left alone. -/
theorem part {α : Type} (h : Remains host host') (ref : Ref .compartment) (f : Compartment → α)
    (hf : ∀ compartment,
      f { compartment with calls := .empty, loading := .empty, memo := .empty } = f compartment) :
    f (host'.compartment ref) = f (host.compartment ref) := by
  rw [← hf (host'.compartment ref), h.compartment ref, hf]

theorem table (h : Remains host host') (ref : Ref .compartment) :
    (host'.compartment ref).table = (host.compartment ref).table :=
  h.part ref Compartment.table fun _ => rfl

theorem descends (h : Remains host host') : host'.Descends = host.Descends := by
  have hparent (ref : Ref .compartment) :
      (host'.compartment ref).parent = (host.compartment ref).parent :=
    h.part ref Compartment.parent fun _ => rfl
  unfold Host.Descends
  simp only [hparent]

theorem offers (h : Remains host host') {node : Node} {blueprint : Blueprint} :
    host'.Offers node blueprint ↔ host.Offers node blueprint := by
  have hload := h.part node.compartment Compartment.loadHook fun _ => rfl
  have hnow := h.part node.compartment Compartment.nowHook fun _ => rfl
  exact ⟨fun hoffers => hoffers.congr hload.symm hnow.symm, fun hoffers => hoffers.congr hload hnow⟩

theorem confines (h : Remains host host') {ref : Ref .compartment} {descriptor : Descriptor}
    (hconfines : host.Confines sides ref descriptor) : host'.Confines sides ref descriptor := by
  unfold Host.Confines at hconfines ⊢
  split
  · exact hconfines
  · rw [h.descends]
    exact hconfines
  · exact hconfines.mono h.born
  · trivial

end Remains

namespace Sides.Alters

variable {k : Noun} {α : Type} {good : α → Prop} {before after : Arena k α}

theorem refl (arena : Arena k α) : sides.Alters good arena arena :=
  ⟨Nat.le_refl _, fun _ => .inl rfl⟩

theorem of_eq (h : after = before) : sides.Alters good before after := by
  subst h
  exact refl after

theorem push (hnext : sides.of before.next = sides.active) {value : α} (hvalue : good value) :
    sides.Alters good before (before.push value) where
  size := by simp
  cells ref := by
    rw [Arena.get?_push]
    split
    · rename_i href
      subst href
      refine .inr ⟨hnext, fun found hfound => ?_⟩
      cases hfound
      exact hvalue
    · exact .inl rfl

theorem modify {ref : Ref k} {f : α → α} (href : sides.of ref = sides.active)
    (hf : ∀ value, before.get? ref = some value → good (f value)) :
    sides.Alters good before (before.modify ref f) where
  size := by simp
  cells other := by
    rw [Arena.get?_modify]
    split
    · rename_i hsame
      subst hsame
      refine .inr ⟨href, fun found hfound => ?_⟩
      obtain ⟨value, hvalue, rfl⟩ := Option.map_eq_some_iff.1 hfound
      exact hf value hvalue
    · exact .inl rfl

theorem set {ref : Ref k} {value : α} (href : sides.of ref = sides.active) (hvalue : good value) :
    sides.Alters good before (before.set ref value) where
  size := by simp [Arena.set, Arena.size]
  cells other := by
    rw [Arena.get?_set]
    split
    · refine .inr ⟨?_, fun found hfound => ?_⟩
      · rename_i hsame
        exact hsame ▸ href
      · obtain ⟨_, _, rfl⟩ := Option.map_eq_some_iff.1 hfound
        exact hvalue
    · exact .inl rfl

theorem spared (h : sides.Alters good before after) {ref : Ref k} (href : sides.of ref ≠ sides.active) :
    after.get? ref = before.get? ref :=
  (h.cells ref).resolve_right fun hcell => href hcell.1

end Sides.Alters

namespace Sides.Touches

theorem born (h : sides.Touches host host') {k : Noun} (ref : Ref k) (href : host.Born ref) :
    host'.Born ref := by
  cases k with
  | slot => exact Nat.lt_of_lt_of_le href h.slots.size
  | «exports» => exact Nat.lt_of_lt_of_le href h.spaces.size
  | record => exact Nat.lt_of_lt_of_le href h.records.size
  | ready => exact Nat.lt_of_lt_of_le href h.readies.size
  | driver => exact Nat.lt_of_lt_of_le href h.drivers.size
  | verdict => exact Nat.lt_of_lt_of_le href h.verdicts.size
  | _ => trivial

theorem remains (h : sides.Touches host host') : Remains host host' :=
  ⟨h.labels, h.size, h.compartment, h.born⟩

/-- Nothing changed but records, the store, completions, drivers and verdicts. -/
theorem of_cells (labels : host'.labels = host.labels)
    (compartments : host'.compartments = host.compartments)
    (records : sides.Alters (Record.OnSide host' sides sides.active) host.records host'.records)
    (spaces : sides.Alters (Namespace.OnSide host' sides sides.active) host.store.spaces
      host'.store.spaces)
    (slots : sides.Alters (fun _ => True) host.store.slots host'.store.slots)
    (readies : sides.Alters (fun _ => True) host.readies host'.readies)
    (drivers : sides.Alters (fun _ => True) host.drivers host'.drivers)
    (verdicts : sides.Alters (fun _ => True) host.verdicts host'.verdicts) :
    sides.Touches host host' := by
  have hsame (ref : Ref .compartment) : host'.compartment ref = host.compartment ref := by
    unfold Host.compartment
    rw [compartments]
  refine ⟨labels, ?_, fun ref => ?_, fun ref _ => ?_, fun node entry hentry => ?_, records, spaces,
    slots, readies, drivers, verdicts⟩
  · rw [compartments]
  · rw [hsame]
  · rw [hsame]
  · unfold Host.entryAt? at hentry ⊢
    rw [hsame] at hentry
    exact .inl hentry

end Sides.Touches

namespace Sides.Apart

/-- The sides stay apart when the acting side makes a change. -/
theorem touch (h : sides.Apart host) (ht : sides.Touches host host') : sides.Apart host' where
  records ref record hrecord := by
    rcases ht.records.cells ref with hsame | ⟨href, hgood⟩
    · exact (h.records ref record (hsame ▸ hrecord)).mono ht.born
    · rw [href]
      exact hgood record hrecord
  spaces ref space hspace := by
    rcases ht.spaces.cells ref with hsame | ⟨href, hgood⟩
    · exact (h.spaces ref space (hsame ▸ hspace)).mono ht.born
    · rw [href]
      exact hgood space hspace
  memo node entry hentry := by
    rcases ht.entries node entry hentry with hold | ⟨hnode, hgood⟩
    · exact (h.memo node entry hold).mono ht.born
    · rw [hnode]
      exact hgood
  tables node descriptor htable := by
    rw [ht.remains.table] at htable
    exact ht.remains.confines (h.tables node descriptor htable)
  offers node blueprint hnode hoffers := by
    have hsafe := h.offers node blueprint hnode (ht.remains.offers.1 hoffers)
    unfold Host.Safe at hsafe ⊢
    split
    · rw [ht.labels]
      exact hsafe
    · rw [ht.remains.descends]
      exact hsafe
    · rename_i label key
      intro owner howner
      rw [ht.labels] at howner
      by_cases hside : sides.of owner = sides.active
      · exact .inl (hside.trans hnode.symm)
      · refine (hsafe owner howner).imp_right fun hnone => ?_
        unfold Host.entryAt? at hnone ⊢
        rw [ht.memo owner hside]
        exact hnone
    · trivial
  fresh ref href := h.fresh ref fun hborn => href (ht.born ref hborn)
  spares :=
    { memo := fun ref href => (ht.memo ref href).trans (h.spares.memo ref href)
      records := fun ref href => (ht.records.spared href).trans (h.spares.records ref href)
      spaces := fun ref href => (ht.spaces.spared href).trans (h.spares.spaces ref href)
      slots := fun ref href => (ht.slots.spared href).trans (h.spares.slots ref href)
      readies := fun ref href => (ht.readies.spared href).trans (h.spares.readies ref href)
      drivers := fun ref href => (ht.drivers.spared href).trans (h.spares.drivers ref href)
      verdicts := fun ref href => (ht.verdicts.spared href).trans (h.spares.verdicts ref href) }

theorem next_slot (h : sides.Apart host) : sides.of host.store.slots.next = sides.active :=
  h.fresh _ (Nat.lt_irrefl _)

theorem next_space (h : sides.Apart host) : sides.of host.store.spaces.next = sides.active :=
  h.fresh _ (Nat.lt_irrefl _)

theorem next_record (h : sides.Apart host) : sides.of host.records.next = sides.active :=
  h.fresh _ (Nat.lt_irrefl _)

theorem next_ready (h : sides.Apart host) : sides.of host.readies.next = sides.active :=
  h.fresh _ (Nat.lt_irrefl _)

theorem next_driver (h : sides.Apart host) : sides.of host.drivers.next = sides.active :=
  h.fresh _ (Nat.lt_irrefl _)

theorem next_verdict (h : sides.Apart host) : sides.of host.verdicts.next = sides.active :=
  h.fresh _ (Nat.lt_irrefl _)

/-- The record behind a reference to a thing that exists. -/
theorem record (h : sides.Apart host) {ref : Ref .record} (href : host.OnSide sides side ref) :
    host.records.get? ref = some (host.record ref) ∧ (host.record ref).OnSide host sides side := by
  have hlt : ref.index < host.records.cells.size := href.1
  have hget : host.records.get? ref = some host.records.cells[ref.index] :=
    Array.getElem?_eq_getElem hlt
  have hrecord : host.records.get? ref = some (host.record ref) := by
    unfold Host.record
    rw [hget]
    rfl
  exact ⟨hrecord, href.2 ▸ h.records ref _ hrecord⟩

/-- The namespace behind a reference to one that exists. -/
theorem space (h : sides.Apart host) {ref : Ref .exports} (href : host.OnSide sides side ref) :
    (host.store.space ref).OnSide host sides side := by
  have hlt : ref.index < host.store.spaces.cells.size := href.1
  have hget : host.store.spaces.get? ref = some host.store.spaces.cells[ref.index] :=
    Array.getElem?_eq_getElem hlt
  have hspace : host.store.space ref = host.store.spaces.cells[ref.index] := by
    unfold Store.space
    rw [hget]
    rfl
  rw [hspace]
  exact href.2 ▸ h.spaces ref _ hget

end Sides.Apart

end ModuleLoader
