import ModuleLoader.Proofs.Promises
import ModuleLoader.Proofs.Searches
/-!
What a wiring that succeeds contains: an origin for each imported name and for each name that leads
somewhere.
-/

namespace ModuleLoader
set_option autoImplicit false

namespace Batch

variable {batch : Batch}

theorem mem_insertName {name other : String} : ∀ {names : List String},
    other ∈ insertName name names ↔ other = name ∨ other ∈ names
  | [] => by
    simp [insertName]
  | first :: rest => by
    unfold insertName
    split
    · rename_i heq
      subst heq
      simp
    · split
      · simp
      · rw [List.mem_cons, List.mem_cons, mem_insertName]
        exact or_left_comm

theorem mem_insertNames {other : String} : ∀ {more names : List String},
    other ∈ more.foldl (fun names name => insertName name names) names ↔
      other ∈ more ∨ other ∈ names
  | [], _ => by simp
  | first :: rest, names => by
    rw [List.foldl_cons, mem_insertNames, mem_insertName, List.mem_cons]
    exact or_left_comm.trans or_assoc.symm

theorem mem_addNames {reserved other : String} : ∀ {more names : List String},
    other ∈ addNames reserved names more ↔ other ∈ more ∧ other ≠ reserved ∨ other ∈ names
  | [], _ => by simp [addNames]
  | first :: rest, names => by
    have hrest (names : List String) : other ∈ addNames reserved names rest ↔
        other ∈ rest ∧ other ≠ reserved ∨ other ∈ names := mem_addNames
    unfold addNames at hrest ⊢
    rw [List.foldl_cons, hrest]
    split
    · rename_i hfirst
      subst hfirst
      constructor
      · rintro (⟨hmem, hne⟩ | hmem)
        · exact .inl ⟨List.mem_cons_of_mem _ hmem, hne⟩
        · exact .inr hmem
      · rintro (⟨hmem, hne⟩ | hmem)
        · exact .inl ⟨(List.mem_cons.1 hmem).resolve_left hne, hne⟩
        · exact .inr hmem
    · rename_i hfirst
      rw [mem_insertName, List.mem_cons]
      constructor
      · rintro (⟨hmem, hne⟩ | rfl | hmem)
        · exact .inl ⟨.inr hmem, hne⟩
        · exact .inl ⟨.inl rfl, hfirst⟩
        · exact .inr hmem
      · rintro (⟨rfl | hmem, hne⟩ | hmem)
        · exact .inr (.inl rfl)
        · exact .inl ⟨hmem, hne⟩
        · exact .inr (.inr hmem)

/-- A record offers a name: explicitly, outside the batch, or through a star. -/
inductive Offers (batch : Batch) : Ref .record → String → Prop where
  | outside {record : Ref .record} {name : String} {exports : Table (Ref .slot)} :
      batch.unitOf record = none → batch.outside record = .ok exports → name ∈ exports.names →
        Offers batch record name
  | explicit {record : Ref .record} {name : String} {unit : LinkUnit} :
      batch.unitOf record = some unit → name ∈ unit.explicitNames → Offers batch record name
  | star {record target : Ref .record} {name : String} {unit : LinkUnit}
      {targets : List (Ref .record)} : batch.unitOf record = some unit →
        unit.starRecords = .ok targets → target ∈ targets → Offers batch target name →
          Offers batch record name

theorem explicitNames_of_exportStep {unit : LinkUnit} {name : String} {step : ExportStep}
    (h : unit.exportStep name = .ok (some step)) : name ∈ unit.explicitNames := by
  unfold LinkUnit.explicitNames
  rw [List.mem_filterMap]
  cases LinkUnit.explicit_of_explicitStep h with
  | exportName hmem _ => exact ⟨_, hmem, rfl⟩
  | exportAs hmem _ => exact ⟨_, hmem, rfl⟩
  | exportFrom hmem _ => exact ⟨_, hmem, rfl⟩
  | exportAllAs hmem _ => exact ⟨_, hmem, rfl⟩

theorem Leads.offers {record : Ref .record} {name : String} {origin : Origin}
    (h : batch.Leads record name origin) : batch.Offers record name := by
  induction h with
  | outside hunit hexports hslot => exact .outside hunit hexports (Table.mem_names hslot)
  | found hunit hstep => exact .explicit hunit (explicitNames_of_exportStep hstep)
  | forward hunit hstep => exact .explicit hunit (explicitNames_of_exportStep hstep)
  | require hunit hstep => exact .explicit hunit (explicitNames_of_exportStep hstep)
  | star hunit _ _ htargets hmem _ ih => exact .star hunit htargets hmem ih

/-- What a record that was taken in contributes is among the names. -/
def Taken (batch : Batch) (reserved : String) (names : List String) (record : Ref .record) : Prop :=
  batch.unitOf record = none ∧ ∃ exports, batch.outside record = .ok exports ∧
    ∀ name ∈ exports.names, name ≠ reserved → name ∈ names

/-- The names of the visited records are there, and their stars were followed or are pending. -/
def Covers (batch : Batch) (reserved : String) (visited pending : List (Ref .record))
    (names : List String) : Prop :=
  ∀ record ∈ visited, ∃ unit, batch.unitOf record = some unit ∧
    (∀ name ∈ unit.explicitNames, name ≠ reserved → name ∈ names) ∧
      ∃ targets, unit.starRecords = .ok targets ∧ ∀ target ∈ targets,
        target ∈ visited ∨ target ∈ pending ∨ batch.Taken reserved names target

/-- The number of stars of the units that were not visited. -/
def starsLeft (units : List LinkUnit) (visited : List (Ref .record)) : Nat :=
  total (fun unit => if visited.contains unit.record then 0 else unit.stars.length) units

theorem starsLeft_le {units : List LinkUnit} {visited visited' : List (Ref .record)}
    (h : ∀ record ∈ visited, record ∈ visited') :
    starsLeft units visited' ≤ starsLeft units visited := by
  induction units with
  | nil => exact Nat.le_refl 0
  | cons unit rest ih =>
    unfold starsLeft at ih ⊢
    simp only [total, List.contains_iff_mem] at ih ⊢
    refine Nat.add_le_add ?_ ih
    by_cases hmem : unit.record ∈ visited
    · simp [hmem, h _ hmem]
    · rw [if_neg hmem]
      split
      · exact Nat.zero_le _
      · exact Nat.le_refl unit.stars.length

theorem starsLeft_cons {units : List LinkUnit} {visited : List (Ref .record)} {unit : LinkUnit}
    (hmem : unit ∈ units) (hnew : unit.record ∉ visited) :
    starsLeft units (unit.record :: visited) + unit.stars.length ≤ starsLeft units visited := by
  induction units with
  | nil => cases hmem
  | cons first rest ih =>
    have hle : starsLeft rest (unit.record :: visited) ≤ starsLeft rest visited :=
      starsLeft_le fun _ => List.mem_cons_of_mem _
    unfold starsLeft at ih hle ⊢
    simp only [total, List.contains_iff_mem]
    simp only [List.contains_iff_mem] at ih hle
    rcases List.mem_cons.1 hmem with rfl | hmem
    · rw [if_pos List.mem_cons_self, if_neg hnew]
      omega
    · have hrest := ih hmem
      by_cases hfirst : first.record ∈ visited
      · rw [if_pos (List.mem_cons_of_mem _ hfirst), if_pos hfirst]
        omega
      · rw [if_neg hfirst]
        split <;> omega

theorem length_targets {unit : LinkUnit} : ∀ {specifiers : List String}
    {targets : List (Ref .record)}, unit.targets specifiers = .ok targets →
      targets.length = specifiers.length
  | [], targets, h => by
    cases h
    rfl
  | specifier :: rest, targets, h => by
    unfold LinkUnit.targets at h
    split at h
    · cases h
    · split at h
      · cases h
      · rename_i records hrecords
        cases h
        rw [List.length_cons, List.length_cons, length_targets hrecords]

section Covers

variable {reserved : String} {visited pending : List (Ref .record)} {names names' : List String}
  {record : Ref .record}

theorem Taken.mono (hsub : ∀ name ∈ names, name ∈ names') (h : batch.Taken reserved names record) :
    batch.Taken reserved names' record := by
  obtain ⟨hunit, exports, hexports, hnames⟩ := h
  exact ⟨hunit, exports, hexports, fun name hmem hne => hsub name (hnames name hmem hne)⟩

/-- A pending record that was visited or taken in is not pending any more. -/
theorem Covers.next (h : batch.Covers reserved visited (record :: pending) names)
    (hsub : ∀ name ∈ names, name ∈ names')
    (hrecord : record ∈ visited ∨ batch.Taken reserved names' record) :
    batch.Covers reserved visited pending names' := by
  intro other hother
  obtain ⟨unit, hunit, hexplicit, targets, htargets, hstars⟩ := h other hother
  refine ⟨unit, hunit, fun name hmem hne => hsub name (hexplicit name hmem hne), targets, htargets,
    fun target hmem => ?_⟩
  rcases hstars target hmem with hseen | hpend | htaken
  · exact .inl hseen
  · rcases List.mem_cons.1 hpend with rfl | hpend
    · exact hrecord.imp_right .inr
    · exact .inr (.inl hpend)
  · exact .inr (.inr (htaken.mono hsub))

/-- A unit is visited: its stars are pending. -/
theorem Covers.visit (h : batch.Covers reserved visited (record :: pending) names) {unit : LinkUnit}
    {targets : List (Ref .record)} (hunit : batch.unitOf record = some unit)
    (htargets : unit.starRecords = .ok targets) :
    batch.Covers reserved (record :: visited) (targets.reverse ++ pending)
      (addNames reserved names unit.explicitNames) := by
  intro other hother
  rcases List.mem_cons.1 hother with rfl | hother
  · exact ⟨unit, hunit, fun name hmem hne => mem_addNames.2 (.inl ⟨hmem, hne⟩), targets, htargets,
      fun target hmem => .inr (.inl (List.mem_append_left _ (List.mem_reverse.2 hmem)))⟩
  · obtain ⟨unit', hunit', hexplicit, targets', htargets', hstars⟩ := h other hother
    have hsub (name : String) (hmem : name ∈ names) :
        name ∈ addNames reserved names unit.explicitNames := mem_addNames.2 (.inr hmem)
    refine ⟨unit', hunit', fun name hmem hne => hsub name (hexplicit name hmem hne), targets',
      htargets', fun target hmem => ?_⟩
    rcases hstars target hmem with hseen | hpend | htaken
    · exact .inl (List.mem_cons_of_mem _ hseen)
    · rcases List.mem_cons.1 hpend with rfl | hpend
      · exact .inl List.mem_cons_self
      · exact .inr (.inl (List.mem_append_right _ hpend))
    · exact .inr (.inr (htaken.mono hsub))

/-- In the end every record that stars lead to was visited or taken in. -/
theorem starNames_covers (hproper : batch.Proper) :
    ∀ (fuel : Nat) {visited pending : List (Ref .record)} {names result : List String},
      batch.starNames reserved fuel visited pending names = .ok result →
        batch.Covers reserved visited pending names →
          pending.length + starsLeft batch.units visited < fuel →
            (∀ name ∈ names, name ∈ result) ∧ ∃ visited', batch.Covers reserved visited' [] result ∧
              (∀ record ∈ visited, record ∈ visited') ∧
                ∀ record ∈ pending, record ∈ visited' ∨ batch.Taken reserved result record
  | 0, _, _, _, _, _, _, hfuel => absurd hfuel (Nat.not_lt_zero _)
  | fuel + 1, visited, [], names, result, h, hcovers, _ => by
    cases h
    exact ⟨fun _ hmem => hmem, visited, hcovers, fun _ hmem => hmem, fun _ hmem => nomatch hmem⟩
  | fuel + 1, visited, record :: pending, names, result, h, hcovers, hfuel => by
    rw [List.length_cons] at hfuel
    unfold starNames at h
    split at h
    · rename_i hunit
      split at h
      · cases h
      · rename_i exports hexports
        have hsub (name : String) (hmem : name ∈ names) :
            name ∈ addNames reserved names exports.names := mem_addNames.2 (.inr hmem)
        have hrecord : batch.Taken reserved (addNames reserved names exports.names) record :=
          ⟨hunit, exports, hexports, fun name hmem hne => mem_addNames.2 (.inl ⟨hmem, hne⟩)⟩
        obtain ⟨hnames, visited', hcovers', hvisited, hpending⟩ :=
          starNames_covers hproper fuel h (hcovers.next hsub (.inr hrecord)) (by omega)
        refine ⟨fun name hmem => hnames name (hsub name hmem), visited', hcovers', hvisited, ?_⟩
        intro other hother
        rcases List.mem_cons.1 hother with rfl | hother
        · exact .inr (hrecord.mono hnames)
        · exact hpending other hother
    · rename_i unit hunit
      obtain ⟨humem, hurecord⟩ := hproper.unit record unit hunit
      split at h
      · rename_i hseen
        have hseen : record ∈ visited := by simpa using hseen
        obtain ⟨hnames, visited', hcovers', hvisited, hpending⟩ :=
          starNames_covers hproper fuel h (hcovers.next (fun _ hmem => hmem) (.inl hseen)) (by omega)
        refine ⟨hnames, visited', hcovers', hvisited, fun other hother => ?_⟩
        rcases List.mem_cons.1 hother with rfl | hother
        · exact .inl (hvisited _ hseen)
        · exact hpending other hother
      · rename_i hnew
        have hnew : record ∉ visited := by simpa using hnew
        dsimp only at h
        split at h
        · cases h
        · rename_i targets htargets
          have hlength : targets.length = unit.stars.length := length_targets htargets
          have hless := starsLeft_cons humem (hurecord ▸ hnew)
          rw [hurecord] at hless
          obtain ⟨hnames, visited', hcovers', hvisited, hpending⟩ :=
            starNames_covers hproper fuel h (hcovers.visit hunit htargets) (by
              rw [List.length_append, List.length_reverse]
              omega)
          refine ⟨fun name hmem => hnames name (mem_addNames.2 (.inr hmem)), visited', hcovers',
            fun other hother => hvisited other (List.mem_cons_of_mem _ hother), ?_⟩
          intro other hother
          rcases List.mem_cons.1 hother with rfl | hother
          · exact .inl (hvisited _ List.mem_cons_self)
          · exact hpending other (List.mem_append_right _ hother)

end Covers

/-- What a visited record offers is among the names, unless it is not forwarded. -/
theorem Offers.covered {reserved : String} {visited : List (Ref .record)} {names : List String}
    (hcovers : batch.Covers reserved visited [] names) {record : Ref .record} {name : String}
    (h : batch.Offers record name) (hne : name ≠ reserved)
    (hrecord : record ∈ visited ∨ batch.Taken reserved names record) : name ∈ names := by
  have hseen {record : Ref .record} {unit : LinkUnit} (hunit : batch.unitOf record = some unit)
      (hrecord : record ∈ visited ∨ batch.Taken reserved names record) :
      (∀ name ∈ unit.explicitNames, name ≠ reserved → name ∈ names) ∧
        ∀ targets, unit.starRecords = .ok targets → ∀ target ∈ targets,
          target ∈ visited ∨ batch.Taken reserved names target := by
    rcases hrecord with hrecord | hrecord
    · obtain ⟨unit', hunit', hexplicit, targets', htargets', hstars⟩ := hcovers record hrecord
      rw [hunit] at hunit'
      cases hunit'
      refine ⟨hexplicit, fun targets htargets target hmem => ?_⟩
      rw [htargets'] at htargets
      cases htargets
      rcases hstars target hmem with hseen | hpend | htake
      · exact .inl hseen
      · cases hpend
      · exact .inr htake
    · rw [hrecord.1] at hunit
      cases hunit
  induction h with
  | outside hunit hexports hmem =>
    rcases hrecord with hrecord | hrecord
    · obtain ⟨unit, hunit', -⟩ := hcovers _ hrecord
      rw [hunit] at hunit'
      cases hunit'
    · obtain ⟨-, exports, hexports', hnames⟩ := hrecord
      rw [hexports'] at hexports
      cases hexports
      exact hnames _ hmem hne
  | explicit hunit hmem => exact (hseen hunit hrecord).1 _ hmem hne
  | star hunit htargets hmem _ ih => exact ih hne ((hseen hunit hrecord).2 _ htargets _ hmem)

theorem stars_le (unit : LinkUnit) : unit.stars.length ≤ unit.bindings.length :=
  List.length_filterMap_le _ _

/-- The names that a record may export cover all that its stars lead to. -/
theorem exportableNames_covers (hproper : batch.Proper) {unit : LinkUnit}
    (hmem : unit ∈ batch.units) {names : List String}
    (h : batch.exportableNames unit = .ok names) :
    (∀ name ∈ unit.explicitNames, name ∈ names) ∧ ∃ visited,
      batch.Covers unit.defaultExport visited [] names ∧ unit.record ∈ visited := by
  have hunit := hproper.unitOf unit hmem
  unfold exportableNames at h
  split at h
  · cases h
  · rename_i targets htargets
    have hexplicit : ∀ name ∈ unit.explicitNames,
        name ∈ unit.explicitNames.foldl (fun names name => insertName name names) [] :=
      fun name hmem => mem_insertNames.2 (.inl hmem)
    have hcovers : batch.Covers unit.defaultExport [unit.record] targets.reverse
        (unit.explicitNames.foldl (fun names name => insertName name names) []) := by
      intro record hrecord
      obtain rfl := List.mem_singleton.1 hrecord
      exact ⟨unit, hunit, fun name hmem _ => hexplicit name hmem, targets, htargets,
        fun target hmem => .inr (.inl (List.mem_reverse.2 hmem))⟩
    have hfuel : targets.reverse.length + starsLeft batch.units [unit.record] <
        2 * batch.bound + 2 := by
      have hlength : targets.length = unit.stars.length := length_targets htargets
      have hless : starsLeft batch.units [unit.record] + unit.stars.length ≤
          starsLeft batch.units [] := starsLeft_cons hmem List.not_mem_nil
      have hstars : starsLeft batch.units [] ≤
          total (fun unit => unit.bindings.length) batch.units := by
        unfold starsLeft
        generalize batch.units = units
        induction units with
        | nil => exact Nat.le_refl 0
        | cons first rest ih =>
          simp only [total, List.contains_iff_mem, List.not_mem_nil, if_false] at ih ⊢
          exact Nat.add_le_add (stars_le first) ih
      have hbound : total (fun unit => unit.bindings.length) batch.units ≤ batch.bound := by
        unfold bound
        rw [foldl_total]
        dsimp only
        rw [Nat.succ_mul]
        omega
      rw [List.length_reverse]
      omega
    obtain ⟨hnames, visited, hcovers', hvisited, -⟩ := starNames_covers hproper _ h hcovers hfuel
    exact ⟨fun name hname => hnames name (hexplicit name hname), visited, hcovers',
      hvisited _ List.mem_cons_self⟩

/-- A record may export whatever it exports explicitly, and whatever leads somewhere. -/
theorem mem_exportableNames (hproper : batch.Proper) {unit : LinkUnit} (hmem : unit ∈ batch.units)
    {names : List String} (h : batch.exportableNames unit = .ok names) :
    (∀ name ∈ unit.explicitNames, name ∈ names) ∧
      ∀ name origin, batch.Leads unit.record name origin → name ∈ names := by
  have hunit := hproper.unitOf unit hmem
  obtain ⟨hexplicit, visited, hcovers, hvisited⟩ := exportableNames_covers hproper hmem h
  refine ⟨hexplicit, fun name origin hleads => ?_⟩
  have hstep {step : ExportStep} (hstep : unit.exportStep name = .ok (some step)) :
      name ∈ names :=
    hexplicit name (explicitNames_of_exportStep hstep)
  cases hleads with
  | outside hnone =>
    rw [hunit] at hnone
    cases hnone
  | found hunit' hfound =>
    rw [hunit] at hunit'
    cases hunit'
    exact hstep hfound
  | forward hunit' hfound =>
    rw [hunit] at hunit'
    cases hunit'
    exact hstep hfound
  | require hunit' hfound =>
    rw [hunit] at hunit'
    cases hunit'
    exact hstep hfound
  | star hunit' _ hdefault htargets htarget hnext =>
    rw [hunit] at hunit'
    cases hunit'
    exact (Offers.star hunit htargets htarget hnext.offers).covered hcovers hdefault (.inl hvisited)

/-- A binding imports a local name from an origin. -/
def Imports (batch : Batch) (unit : LinkUnit) : Binding → String → Origin → Prop
  | .importName name source, own, origin =>
    own = name ∧ batch.importOrigin unit name source = .ok origin
  | .importAs name newName source, own, origin =>
    own = newName ∧ batch.importOrigin unit name source = .ok origin
  | .importAll newName source, own, origin =>
    own = newName ∧ ∃ target, unit.target source = .ok target ∧ origin = .exports target
  | _, _, _ => False

end Batch

/-- The local name that an import binding introduces. -/
def Binding.importedName? (binding : Binding) : Option String :=
  if binding.isImport then binding.localName? else none

namespace Batch

variable {batch : Batch}

/-- What a binding is wired to, if it is an import. -/
def wiredTo (batch : Batch) (unit : LinkUnit) : Binding → Except Failure (Option (String × Origin))
  | .importName name source =>
    (batch.importOrigin unit name source).map fun origin => some (name, origin)
  | .importAs name newName source =>
    (batch.importOrigin unit name source).map fun origin => some (newName, origin)
  | .importAll newName source =>
    (unit.target source).map fun target => some (newName, .exports target)
  | _ => .ok none

theorem wireImports_cons (unit : LinkUnit) (binding : Binding) (rest : List Binding) :
    batch.wireImports unit (binding :: rest) = match batch.wiredTo unit binding with
      | .error failure => .error failure
      | .ok wired => match batch.wireImports unit rest with
        | .error failure => .error failure
        | .ok others => .ok (wired.toList ++ others) := by
  cases binding <;> rfl

/-- What a binding is wired to is what it imports. -/
theorem wiredTo_imports {unit : LinkUnit} {binding : Binding} {wired : Option (String × Origin)}
    (h : batch.wiredTo unit binding = .ok wired) : wired.map Prod.fst = binding.importedName? ∧
      (∀ own origin, wired = some (own, origin) → batch.Imports unit binding own origin) ∧
        (binding.isImport → wired.isSome) := by
  cases binding with
  | importName name source =>
    obtain ⟨origin, horigin, rfl⟩ := LinkUnit.map_ok h
    refine ⟨rfl, ?_, fun _ => rfl⟩
    rintro _ _ ⟨⟩
    exact ⟨rfl, horigin⟩
  | importAs name newName source =>
    obtain ⟨origin, horigin, rfl⟩ := LinkUnit.map_ok h
    refine ⟨rfl, ?_, fun _ => rfl⟩
    rintro _ _ ⟨⟩
    exact ⟨rfl, horigin⟩
  | importAll newName source =>
    obtain ⟨target, htarget, rfl⟩ := LinkUnit.map_ok h
    refine ⟨rfl, ?_, fun _ => rfl⟩
    rintro _ _ ⟨⟩
    exact ⟨rfl, target, htarget, rfl⟩
  | exportName _ | exportAs _ _ | exportFrom _ _ _ | exportAll _ | exportAllAs _ _ =>
    cases h
    exact ⟨rfl, nofun, fun himport => nomatch himport⟩

/-- What the imports of a wiring are. -/
theorem wireImports_imports {unit : LinkUnit} : ∀ {bindings : List Binding}
    {imports : List (String × Origin)}, batch.wireImports unit bindings = .ok imports →
      imports.map Prod.fst = bindings.filterMap Binding.importedName? ∧
        (∀ own origin, (own, origin) ∈ imports →
          ∃ binding ∈ bindings, batch.Imports unit binding own origin) ∧
          ∀ binding ∈ bindings, binding.isImport →
            ∃ own origin, (own, origin) ∈ imports ∧ batch.Imports unit binding own origin
  | [], imports, h => by
    cases h
    exact ⟨rfl, (fun _ _ hmem => nomatch hmem), (fun _ hmem => nomatch hmem)⟩
  | binding :: rest, imports, h => by
    -- One binding after another: what it is wired to, if it is an import, comes first.
    rw [wireImports_cons] at h
    split at h
    · cases h
    · rename_i wired hwired
      split at h
      · cases h
      · rename_i others hothers
        cases h
        obtain ⟨hname, hfirst, himport⟩ := wiredTo_imports hwired
        obtain ⟨hnames, hfrom, hto⟩ := wireImports_imports hothers
        refine ⟨?_, fun own origin hmem => ?_, fun other hmem hother => ?_⟩
        · rw [List.map_append, hnames, List.filterMap_cons, ← hname]
          cases wired <;> rfl
        · rcases List.mem_append.1 hmem with hmem | hmem
          · exact ⟨binding, List.mem_cons_self, hfirst own origin (Option.mem_toList.1 hmem)⟩
          · obtain ⟨other, hother, himports⟩ := hfrom own origin hmem
            exact ⟨other, List.mem_cons_of_mem _ hother, himports⟩
        · rcases List.mem_cons.1 hmem with rfl | hmem
          · obtain ⟨⟨own, origin⟩, hfound⟩ := Option.isSome_iff_exists.1 (himport hother)
            exact ⟨own, origin, List.mem_append_left _ (Option.mem_toList.2 hfound),
              hfirst own origin hfound⟩
          · obtain ⟨own, origin, hfound, himports⟩ := hto other hmem hother
            exact ⟨own, origin, List.mem_append_right _ hfound, himports⟩

/-- The exports of a wiring are the names that lead somewhere, and no search for one failed. -/
theorem wireExports_exports {unit : LinkUnit} : ∀ {names : List String}
    {exports : List (String × Origin)}, batch.wireExports unit names = .ok exports →
      (∀ name origin, (name, origin) ∈ exports →
        batch.originOf unit.record name = .ok (some origin)) ∧
        ∀ name ∈ names, ∃ found, batch.originOf unit.record name = .ok found ∧
          (∀ origin, found = some origin → (name, origin) ∈ exports) ∧
            (found = none → emptyExport? unit name = none)
  | [], exports, h => by
    cases h
    exact ⟨(fun _ _ hmem => nomatch hmem), (fun _ hmem => nomatch hmem)⟩
  | name :: rest, exports, h => by
    unfold wireExports at h
    split at h
    · cases h
    · rename_i found hfound
      have hcons {others : List (String × Origin)} (hothers : batch.wireExports unit rest = .ok others)
          (heq : exports = (found.map (name, ·)).toList ++ others)
          (hempty : found = none → emptyExport? unit name = none) :
          (∀ name origin, (name, origin) ∈ exports →
            batch.originOf unit.record name = .ok (some origin)) ∧
            ∀ other ∈ name :: rest, ∃ found, batch.originOf unit.record other = .ok found ∧
              (∀ origin, found = some origin → (other, origin) ∈ exports) ∧
                (found = none → emptyExport? unit other = none) := by
        obtain ⟨hfrom, hto⟩ := wireExports_exports hothers
        subst heq
        refine ⟨fun other origin hmem => ?_, fun other hmem => ?_⟩
        · rcases List.mem_append.1 hmem with hmem | hmem
          · obtain ⟨origin', rfl, heq⟩ := Option.map_eq_some_iff.1 (Option.mem_toList.1 hmem)
            cases heq
            exact hfound
          · exact hfrom other origin hmem
        · rcases List.mem_cons.1 hmem with rfl | hmem
          · refine ⟨found, hfound, ?_, hempty⟩
            rintro origin rfl
            exact List.mem_append_left _ List.mem_cons_self
          · obtain ⟨found', hfound', hsome, hnone⟩ := hto other hmem
            exact ⟨found', hfound', fun origin heq => List.mem_append_right _ (hsome origin heq),
              hnone⟩
      split at h
      · cases h
      · rename_i hnot
        split at h
        · cases h
        · rename_i others hothers
          refine hcons hothers (Except.ok.inj h).symm fun hnone => ?_
          cases hfault : emptyExport? unit name with
          | none => rfl
          | some failure => exact (hnot failure hnone hfault).elim

theorem checkRequests_targets {unit : LinkUnit} : ∀ {requests : List Request},
    batch.checkRequests unit requests = .ok () → ∀ request ∈ requests, ∃ record,
      request.target = some record ∧ ((batch.unitOf record).isSome ∨
        ∃ exports, batch.outside record = .ok exports)
  | [], _, _, hmem => nomatch hmem
  | request :: rest, h, other, hmem => by
    unfold checkRequests at h
    split at h
    · cases h
    · rename_i record hrecord
      split at h
      · rename_i unit' hunit
        rcases List.mem_cons.1 hmem with rfl | hmem
        · exact ⟨record, hrecord, .inl (hunit ▸ rfl)⟩
        · exact checkRequests_targets h other hmem
      · split at h
        · cases h
        · rename_i exports hexports
          rcases List.mem_cons.1 hmem with rfl | hmem
          · exact ⟨record, hrecord, .inr ⟨exports, hexports⟩⟩
          · exact checkRequests_targets h other hmem

end Batch

namespace LinkUnit

/-- Without a fault, no import name and no export name is declared twice. -/
theorem nodup_of_duplicate? : ∀ {bindings : List Binding} {imported exported : List String},
    duplicate? imported exported bindings = none →
      (bindings.filterMap Binding.importedName?).Nodup ∧
        (∀ name ∈ bindings.filterMap Binding.importedName?, name ∉ imported) ∧
          (bindings.filterMap Binding.exportedName?).Nodup ∧
            ∀ name ∈ bindings.filterMap Binding.exportedName?, name ∉ exported
  | [], _, _, _ =>
    ⟨List.nodup_nil, (fun _ hmem => nomatch hmem), List.nodup_nil, (fun _ hmem => nomatch hmem)⟩
  | binding :: rest, imported, exported, h => by
    have hname : (if binding.isImport then binding.localName? else none) = binding.importedName? :=
      rfl
    unfold duplicate? at h
    rw [hname] at h
    cases himport : binding.importedName? with
    | some name =>
      rw [himport] at h
      dsimp only at h
      have hexport : binding.exportedName? = none := by
        cases binding <;> first | rfl | cases himport
      split at h
      · cases h
      · rename_i hnew
        obtain ⟨hnodup, himported, hnodup', hexported⟩ := nodup_of_duplicate? h
        rw [List.filterMap_cons_some himport, List.filterMap_cons_none hexport]
        refine ⟨List.nodup_cons.2 ⟨fun hmem => ?_, hnodup⟩, fun other hmem => ?_, hnodup',
          hexported⟩
        · exact himported name hmem List.mem_cons_self
        · rcases List.mem_cons.1 hmem with rfl | hmem
          · simpa using hnew
          · exact fun hother => himported other hmem (List.mem_cons_of_mem _ hother)
    | none =>
      rw [himport] at h
      dsimp only at h
      rw [List.filterMap_cons_none himport]
      cases hexport : binding.exportedName? with
      | some name =>
        rw [hexport] at h
        dsimp only at h
        split at h
        · cases h
        · rename_i hnew
          obtain ⟨hnodup, himported, hnodup', hexported⟩ := nodup_of_duplicate? h
          rw [List.filterMap_cons_some hexport]
          refine ⟨hnodup, himported, List.nodup_cons.2 ⟨fun hmem => ?_, hnodup'⟩,
            fun other hmem => ?_⟩
          · exact hexported name hmem List.mem_cons_self
          · rcases List.mem_cons.1 hmem with rfl | hmem
            · simpa using hnew
            · exact fun hother => hexported other hmem (List.mem_cons_of_mem _ hother)
      | none =>
        rw [hexport] at h
        rw [List.filterMap_cons_none hexport]
        exact nodup_of_duplicate? h

/-- Two bindings that declare one name are the same. -/
theorem binding_unique {declared : Binding → Option String} : ∀ {bindings : List Binding},
    (bindings.filterMap declared).Nodup → ∀ {binding other : Binding} {name : String},
      binding ∈ bindings → other ∈ bindings → declared binding = some name →
        declared other = some name → binding = other
  | [], _, _, _, _, hmem, _, _, _ => nomatch hmem
  | first :: rest, h, binding, other, name, hmem, hmem', hname, hname' => by
    have hrest {found : Binding} (hfound : found ∈ rest) (hdeclared : declared found = some name) :
        name ∈ rest.filterMap declared :=
      List.mem_filterMap.2 ⟨found, hfound, hdeclared⟩
    have htail : (rest.filterMap declared).Nodup := by
      cases hfirst : declared first with
      | none => rwa [List.filterMap_cons_none hfirst] at h
      | some found =>
        rw [List.filterMap_cons_some hfirst] at h
        exact (List.nodup_cons.1 h).2
    have hout (hfirst : declared first = some name) : name ∉ rest.filterMap declared := by
      rw [List.filterMap_cons_some hfirst] at h
      exact (List.nodup_cons.1 h).1
    rcases List.mem_cons.1 hmem with heq | htailed
    · rcases List.mem_cons.1 hmem' with heq' | htailed'
      · rw [heq, heq']
      · exact absurd (hrest htailed' hname') (hout (heq ▸ hname))
    · rcases List.mem_cons.1 hmem' with heq' | htailed'
      · exact absurd (hrest htailed hname) (hout (heq' ▸ hname'))
      · exact binding_unique htail htailed htailed' hname hname'

/-- Adds the local name that a binding exports. -/
def addExported (unit : LinkUnit) (names : List String) (binding : Binding) : List String :=
  match binding with
  | .exportName name => localNames.addLocal unit names name
  | .exportAs name _ => localNames.addLocal unit names name
  | _ => names

theorem mem_addLocal {unit : LinkUnit} {names : List String} {name other : String} :
    name ∈ localNames.addLocal unit names other ↔ name ∈ names ∨ name = other ∧
      ∀ binding ∈ unit.bindings, binding.isImport → binding.localName? ≠ some name := by
  unfold localNames.addLocal
  split
  · rename_i hmem
    have hmem : other ∈ names := by simpa using hmem
    refine ⟨.inl, fun h => h.elim id ?_⟩
    rintro ⟨rfl, -⟩
    exact hmem
  · split
    · rename_i hany
      rw [List.any_eq_true] at hany
      obtain ⟨binding, hbinding, hboth⟩ := hany
      simp only [Bool.and_eq_true, decide_eq_true_eq] at hboth
      refine ⟨.inl, fun h => h.elim id ?_⟩
      rintro ⟨rfl, hnone⟩
      exact absurd hboth.2 (hnone binding hbinding hboth.1)
    · rename_i hany
      have hany : ∀ binding ∈ unit.bindings, binding.isImport →
          binding.localName? ≠ some other := by
        intro binding hbinding himport heq
        refine hany (List.any_eq_true.2 ⟨binding, hbinding, ?_⟩)
        simp [himport, heq]
      rw [List.mem_append, List.mem_singleton]
      refine or_congr_right ⟨?_, And.left⟩
      rintro rfl
      exact ⟨rfl, hany⟩

theorem mem_addExported {unit : LinkUnit} {names : List String} {name : String} {binding : Binding} :
    name ∈ unit.addExported names binding ↔ name ∈ names ∨
      (binding = .exportName name ∨ ∃ newName, binding = .exportAs name newName) ∧
        ∀ binding ∈ unit.bindings, binding.isImport → binding.localName? ≠ some name := by
  cases binding with
  | exportName other =>
    refine mem_addLocal.trans (or_congr_right (and_congr_left' ⟨?_, ?_⟩))
    · rintro rfl
      exact .inl rfl
    · rintro (heq | ⟨newName, heq⟩)
      · exact (Binding.exportName.inj heq).symm
      · cases heq
  | exportAs other newName =>
    refine mem_addLocal.trans (or_congr_right (and_congr_left' ⟨?_, ?_⟩))
    · rintro rfl
      exact .inr ⟨newName, rfl⟩
    · rintro (heq | ⟨newName', heq⟩)
      · cases heq
      · exact (Binding.exportAs.inj heq).1.symm
  | importName _ _ | importAs _ _ _ | exportFrom _ _ _ | importAll _ _ | exportAll _ | exportAllAs _ _ =>
    simp [addExported]

theorem mem_foldl_addExported {unit : LinkUnit} {name : String} : ∀ {bindings : List Binding}
    {names : List String}, name ∈ bindings.foldl unit.addExported names ↔ name ∈ names ∨
      (∃ binding ∈ bindings, binding = .exportName name ∨ ∃ newName, binding = .exportAs name newName) ∧
        ∀ binding ∈ unit.bindings, binding.isImport → binding.localName? ≠ some name
  | [], _ => by simp
  | first :: rest, names => by
    rw [List.foldl_cons, mem_foldl_addExported, mem_addExported, or_assoc, ← or_and_right]
    refine or_congr_right (and_congr_left' ?_)
    simp [List.mem_cons, or_and_right, exists_or]

/-- A slot is made for every local name that is exported and not imported, and for no other. -/
theorem mem_localNames {unit : LinkUnit} {name : String} : name ∈ unit.localNames ↔
    (∃ binding ∈ unit.bindings,
      binding = .exportName name ∨ ∃ newName, binding = .exportAs name newName) ∧
      ∀ binding ∈ unit.bindings, binding.isImport → binding.localName? ≠ some name := by
  have hall : name ∈ unit.bindings.foldl unit.addExported [] ↔ _ := mem_foldl_addExported
  rwa [List.mem_nil_iff, false_or] at hall

end LinkUnit

end ModuleLoader
