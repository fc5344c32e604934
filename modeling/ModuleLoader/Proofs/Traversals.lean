import ModuleLoader.Proofs.Components
/-!
The order in which a depth-first traversal leaves what it enters. The search for components goes through its
graph as such a traversal does, so that the members of every component stand in this order.
-/

namespace ModuleLoader
set_option autoImplicit false

/-- How far a traversal has come: what it entered, and what it left, in order. -/
structure Traversal (α : Type) where
  entered : List α
  left : List α

namespace Traversal

variable {α : Type} {next : α → List α} {before mid after : Traversal α} {vertex other : α}
  {vertices rest : List α}

def enter (traversal : Traversal α) (vertex : α) : Traversal α :=
  { traversal with entered := vertex :: traversal.entered }

def leave (traversal : Traversal α) (vertex : α) : Traversal α :=
  { traversal with left := traversal.left ++ [vertex] }

/-- A depth-first traversal visits one vertex after another. A vertex that was not entered before is entered,
what comes next to it is visited, and then it is left. -/
inductive Visits (next : α → List α) : Traversal α → List α → Traversal α → Prop
  | done {before : Traversal α} : Visits next before [] before
  | again {before after : Traversal α} {vertex : α} {rest : List α} :
    vertex ∈ before.entered → Visits next before rest after → Visits next before (vertex :: rest) after
  | enter {before mid after : Traversal α} {vertex : α} {rest : List α} :
    vertex ∉ before.entered → Visits next (before.enter vertex) (next vertex) mid →
      Visits next (mid.leave vertex) rest after → Visits next before (vertex :: rest) after

/-- A traversal can go only one way. -/
theorem Visits.unique (h : Visits next before vertices after) {after' : Traversal α}
    (h' : Visits next before vertices after') : after = after' := by
  induction h generalizing after' with
  | done =>
    cases h'
    rfl
  | again hmem _ ih =>
    cases h' with
    | again _ hrest => exact ih hrest
    | enter hnot => exact absurd hmem hnot
  | enter hnot _ _ ihInner ihRest =>
    cases h' with
    | again hmem => exact absurd hmem hnot
    | enter _ hinner hrest =>
      obtain rfl := ihInner hinner
      exact ihRest hrest

/-- A traversal under other names for the vertices. -/
def map {β : Type} (name : α → β) (traversal : Traversal α) : Traversal β :=
  ⟨traversal.entered.map name, traversal.left.map name⟩

theorem map_leave {β : Type} (name : α → β) (traversal : Traversal α) (vertex : α) :
    (traversal.leave vertex).map name = (traversal.map name).leave (name vertex) :=
  congrArg (Traversal.mk _) List.map_append

theorem Visits.map {β : Type} {name : α → β} (hname : Function.Injective name) {next' : β → List β}
    (holds : α → Prop) (hnext : ∀ vertex, holds vertex →
      next' (name vertex) = (next vertex).map name ∧ ∀ other ∈ next vertex, holds other)
    (h : Visits next before vertices after) (hvertices : ∀ vertex ∈ vertices, holds vertex) :
    Visits next' (before.map name) (vertices.map name) (after.map name) := by
  induction h with
  | done => exact .done
  | again hmem _ ih =>
    exact .again (List.mem_map_of_mem hmem) (ih (List.forall_mem_cons.1 hvertices).2)
  | enter hnot _ _ ihInner ihRest =>
    obtain ⟨hvertex, hrest⟩ := List.forall_mem_cons.1 hvertices
    obtain ⟨hsame, hothers⟩ := hnext _ hvertex
    exact .enter (fun hmem => hnot ((List.mem_map_of_injective hname).1 hmem)) (hsame ▸ ihInner hothers)
      (map_leave name _ _ ▸ ihRest hrest)

/-- A traversal that was interrupted goes on, from the innermost vertex that it did not leave, with what it
has still to visit there. -/
inductive Resumes (next : α → List α) : Traversal α → List (α × List α) → Traversal α → Prop
  | done {traversal : Traversal α} : Resumes next traversal [] traversal
  | frame {before mid after : Traversal α} {vertex : α} {rest : List α} {outer : List (α × List α)} :
    Visits next before rest mid → Resumes next (mid.leave vertex) outer after →
      Resumes next before ((vertex, rest) :: outer) after

namespace Resumes

variable {outer : List (α × List α)}

theorem again (hmem : other ∈ before.entered) (h : Resumes next before ((vertex, rest) :: outer) after) :
    Resumes next before ((vertex, other :: rest) :: outer) after := by
  cases h with
  | frame hvisits hrest => exact .frame (.again hmem hvisits) hrest

theorem enter (hnot : other ∉ before.entered)
    (h : Resumes next (before.enter other) ((other, next other) :: (vertex, rest) :: outer) after) :
    Resumes next before ((vertex, other :: rest) :: outer) after := by
  cases h with
  | frame hinner hrest =>
    cases hrest with
    | frame hvisits hrest => exact .frame (.enter hnot hinner hvisits) hrest

theorem leave (h : Resumes next (before.leave vertex) outer after) :
    Resumes next before ((vertex, []) :: outer) after :=
  .frame .done h

/-- A traversal that has only entered its root visits the root. -/
theorem visits (h : Resumes next ⟨[vertex], []⟩ [(vertex, next vertex)] after) :
    Visits next ⟨[], []⟩ [vertex] after := by
  cases h with
  | frame hvisits hrest =>
    cases hrest
    exact .enter List.not_mem_nil hvisits .done

end Resumes

end Traversal

namespace Graph

open Traversal

variable {graph : Graph}

/-- Every successor is a vertex. -/
def Closed (graph : Graph) : Prop :=
  ∀ vertex, ∀ other ∈ graph.next vertex, other < graph.order

namespace Search

variable {search : Search} {root vertex other : Nat} {path : List Frame} {traversal : Traversal Nat}

/-- What the frames of the path have still to visit. -/
def frames (search : Search) : List (Nat × List Nat) :=
  search.path.map fun frame => (frame.vertex, frame.rest)

/-- The search is where a traversal is: it has left the same vertices, in the order of their exits. -/
structure Traces (search : Search) (traversal : Traversal Nat) : Prop where
  entered : ∀ vertex, vertex ∈ traversal.entered ↔ vertex ∈ search.stack ++ search.found.flatten
  left : ∀ vertex, vertex ∈ traversal.left ↔
    vertex ∈ search.stack ++ search.found.flatten ∧ vertex ∉ search.path.map Frame.vertex
  sorted : traversal.left.Pairwise fun vertex other => search.exit vertex < search.exit other
  exits : ∀ vertex ∈ traversal.left, search.exit vertex < search.left
  size : search.exits.size = search.standings.size
  found : ∀ members ∈ search.found, members.Sublist traversal.left

/-- Vertices that were left stand in the order of the traversal once they are sorted by their exits. -/
theorem Traces.sublist (h : search.Traces traversal) {members : List Nat} (hnodup : members.Nodup)
    (hleft : ∀ vertex ∈ members, vertex ∈ traversal.left) :
    (sortBy search.exit members).Sublist traversal.left := by
  have hperm := perm_sortBy search.exit members
  obtain ⟨ordered, hordered, hsublist⟩ := List.subperm_of_subset (hperm.nodup_iff.2 hnodup)
    fun vertex hmem => hleft vertex (hperm.mem_iff.1 hmem)
  have hinj : ∀ vertex other, vertex ∈ ordered → other ∈ sortBy search.exit members →
      search.exit vertex ≤ search.exit other → search.exit other ≤ search.exit vertex →
        vertex = other := fun vertex other hmem hother hle hge =>
    List.inj_on_of_nodup_map (List.pairwise_map.2 (h.sorted.imp Nat.ne_of_lt)) (hsublist.subset hmem)
      (hleft other (hperm.mem_iff.1 hother)) (Nat.le_antisymm hle hge)
  have hsorted : (sortBy search.exit members).Pairwise fun vertex other =>
      search.exit vertex ≤ search.exit other := by
    rw [sortBy_eq]
    have htotal : Std.Total fun vertex other => search.exit vertex ≤ search.exit other :=
      ⟨fun vertex other => Nat.le_total _ _⟩
    have htrans : IsTrans Nat fun vertex other => search.exit vertex ≤ search.exit other :=
      ⟨fun _ _ _ => Nat.le_trans⟩
    exact List.pairwise_insertionSort _ members
  rw [← hordered.eq_of_pairwise hinj ((h.sorted.sublist hsublist).imp Nat.le_of_lt) hsorted]
  exact hsublist

theorem Traces.look (h : search.Traces traversal)
    (hpath : path.map Frame.vertex = search.path.map Frame.vertex) :
    Traces { search with path } traversal :=
  ⟨h.entered, fun vertex => by rw [hpath]; exact h.left vertex, h.sorted, h.exits, h.size, h.found⟩

/-- A vertex that was not met is new to the traversal. -/
theorem Booked.not_met (h : search.Booked graph) (hunmet : search.standing other = .unmet) :
    other ∉ search.stack ++ search.found.flatten := by
  intro hmem
  rcases List.mem_append.1 hmem with hmem | hmem
  · exact h.not_waits hunmet hmem
  · have hgrouped := ((h.grouped other).1 hmem).2
    rw [hunmet] at hgrouped
    cases hgrouped

/-- A vertex is entered. -/
theorem Traces.enter (h : search.Traces traversal) (hbooked : search.Booked graph)
    (hunmet : search.standing other = .unmet)
    (hpath : path.map Frame.vertex = search.path.map Frame.vertex) :
    (search.enter graph other path).Traces (traversal.enter other) := by
  have hnot := hbooked.not_met hunmet
  refine ⟨fun vertex => ?_, fun vertex => ?_, h.sorted, h.exits,
    h.size.trans Array.size_setIfInBounds.symm, h.found⟩
  · change vertex ∈ other :: traversal.entered ↔
      vertex ∈ other :: (search.stack ++ search.found.flatten)
    rw [List.mem_cons, List.mem_cons, h.entered]
  · change vertex ∈ traversal.left ↔ vertex ∈ other :: (search.stack ++ search.found.flatten) ∧
      vertex ∉ other :: path.map Frame.vertex
    rw [h.left, hpath, List.mem_cons, List.mem_cons]
    constructor
    · rintro ⟨hmem, hon⟩
      exact ⟨.inr hmem, not_or.2 ⟨fun heq => hnot (by rw [← heq]; exact hmem), hon⟩⟩
    · rintro ⟨hmem, hon⟩
      exact ⟨hmem.resolve_left fun heq => hon (.inl heq), fun hin => hon (.inr hin)⟩

theorem map_vertex_lower (lowlink : Nat) (path : List Frame) :
    (lower lowlink path).map Frame.vertex = path.map Frame.vertex := by
  cases path <;> rfl

theorem map_rest_lower (lowlink : Nat) (path : List Frame) :
    (lower lowlink path).map (fun frame => (frame.vertex, frame.rest)) =
      path.map fun frame => (frame.vertex, frame.rest) := by
  cases path <;> rfl

/-- The search when a vertex was left that has no component yet. -/
def leaving (search : Search) (vertex : Nat) (path : List Frame) : Search :=
  { search with
    exits := search.exits.setIfInBounds vertex search.left
    left := search.left + 1
    path }

theorem exit_leaving (hsize : vertex < search.exits.size) (other : Nat) :
    (search.leaving vertex path).exit other =
      if other = vertex then search.left else search.exit other := by
  unfold Search.exit leaving
  rw [Array.getElem?_setIfInBounds]
  by_cases hsame : vertex = other
  · subst hsame
    rw [if_pos rfl, if_pos rfl, if_pos hsize]
    rfl
  · rw [if_neg hsame, if_neg (Ne.symm hsame)]

/-- The innermost vertex is left. -/
theorem Traces.leave (h : search.Traces traversal) {lowlink : Nat}
    (hpath : search.path = ⟨vertex, lowlink, []⟩ :: path)
    (hsize : vertex < search.standings.size) (hmem : vertex ∈ search.stack ++ search.found.flatten)
    (hnot : vertex ∉ path.map Frame.vertex) :
    (search.leaving vertex (lower lowlink path)).Traces (traversal.leave vertex) := by
  have hinside : vertex ∉ traversal.left := fun hin =>
    ((h.left vertex).1 hin).2 (by rw [hpath]; exact List.mem_cons_self)
  have hexit (other : Nat) : (search.leaving vertex (lower lowlink path)).exit other =
      if other = vertex then search.left else search.exit other :=
    exit_leaving (h.size.symm ▸ hsize) other
  have hkept {other : Nat} (hin : other ∈ traversal.left) :
      (search.leaving vertex (lower lowlink path)).exit other = search.exit other := by
    rw [hexit, if_neg]
    rintro rfl
    exact hinside hin
  have hlast : (search.leaving vertex (lower lowlink path)).exit vertex = search.left :=
    (hexit vertex).trans (if_pos rfl)
  refine ⟨h.entered, fun other => ?_, List.pairwise_append.2 ⟨h.sorted.imp_of_mem
    fun hin hin' hlt => ?_, List.pairwise_singleton _ _, fun other hin last heq => ?_⟩, fun other hin => ?_,
    Array.size_setIfInBounds.trans h.size, fun members hmembers =>
      (h.found members hmembers).trans (List.sublist_append_left _ _)⟩
  · change other ∈ traversal.left ++ [vertex] ↔ other ∈ search.stack ++ search.found.flatten ∧
      other ∉ (lower lowlink path).map Frame.vertex
    rw [List.mem_append, List.mem_singleton, h.left, map_vertex_lower, hpath, List.map_cons, List.mem_cons]
    constructor
    · rintro (⟨hin, hon⟩ | rfl)
      · exact ⟨hin, fun hout => hon (.inr hout)⟩
      · exact ⟨hmem, hnot⟩
    · rintro ⟨hin, hon⟩
      by_cases hsame : other = vertex
      · exact .inr hsame
      · exact .inl ⟨hin, not_or.2 ⟨hsame, hon⟩⟩
  · rwa [hkept hin, hkept hin']
  · obtain rfl := List.mem_singleton.1 heq
    rw [hkept hin, hlast]
    exact h.exits other hin
  · change _ < search.left + 1
    rcases List.mem_append.1 hin with hin | hin
    · rw [hkept hin]
      exact Nat.lt_succ_of_lt (h.exits other hin)
    · rw [List.mem_singleton.1 hin, hlast]
      exact Nat.lt_succ_self _

/-- A component of vertices that were left is popped from the stack. -/
theorem Traces.group (h : search.Traces traversal) (hbooked : search.Booked graph)
    (hmem : vertex ∈ search.stack) (hpath : ∀ frame ∈ search.path,
      search.index frame.vertex < search.index vertex) :
    (search.group vertex).Traces traversal := by
  obtain ⟨above, below, hstack, hbelow, hpathAfter, hfound, hsize, -, -⟩ := group_eq hmem
  obtain ⟨habove, -, -⟩ := hbooked.split hstack
  have hexits : (search.group vertex).exits = search.exits := rfl
  have hleft : (search.group vertex).left = search.left := rfl
  have hwhole (other : Nat) : other ∈ (search.group vertex).stack ++ (search.group vertex).found.flatten ↔
      other ∈ search.stack ++ search.found.flatten := by
    rw [hbelow, hfound, hstack, List.flatten_cons, List.append_cons above vertex below]
    simp only [List.mem_append, (perm_sortBy search.exit (above ++ [vertex])).mem_iff]
    tauto
  refine ⟨fun other => (h.entered other).trans (hwhole other).symm, fun other => ?_, ?_, ?_, ?_,
    fun members hmembers => ?_⟩
  · rw [hwhole, hpathAfter]
    exact h.left other
  · unfold Search.exit
    rw [hexits]
    exact h.sorted
  · unfold Search.exit
    rw [hexits, hleft]
    exact h.exits
  · rw [hexits, hsize]
    exact h.size
  · rw [hfound] at hmembers
    rcases List.mem_cons.1 hmembers with rfl | hmembers
    · have hsorted := hbooked.sorted
      rw [hstack, List.append_cons] at hsorted
      have hnodup : (above ++ [vertex]).Nodup := (List.pairwise_append.1 hsorted).1.imp fun hlt heq =>
        Nat.ne_of_gt hlt (congrArg search.index heq)
      refine h.sublist hnodup fun other hother => ?_
      · refine (h.left other).2 ⟨List.mem_append_left _ ?_, fun hon => ?_⟩
        · rw [hstack, List.append_cons]
          exact List.mem_append_left _ hother
        · -- The vertices of the path were entered before the component was.
          obtain ⟨frame, hframe, rfl⟩ := List.mem_map.1 hon
          have hlt := hpath frame hframe
          rcases List.mem_append.1 hother with hother | hother
          · exact Nat.lt_asymm hlt (habove _ hother)
          · exact Nat.lt_irrefl _ (List.mem_singleton.1 hother ▸ hlt)
    · exact h.found members hmembers

/-- The search goes on as the traversal does: what resumes the traversal after a step resumes it before. -/
structure Goes (graph : Graph) (search after : Search) (traversal traversal' : Traversal Nat) : Prop where
  traces : after.Traces traversal'
  resumes : ∀ final, Resumes graph.next traversal' after.frames final →
    Resumes graph.next traversal search.frames final

section Steps

variable {lowlink : Nat} {rest : List Nat} (h : search.Traces traversal)
  (hsound : search.Sound graph root)

include h hsound

/-- The innermost vertex has nothing more to visit. It is left, and its component may be complete. -/
theorem Traces.goes_leave (hpath : search.path = ⟨vertex, lowlink, []⟩ :: path) :
    Goes graph search (search.leave ⟨vertex, lowlink, []⟩ path) traversal (traversal.leave vertex) := by
  have hwaits : vertex ∈ search.stack := (hsound.frames _ (hpath ▸ List.mem_cons_self)).waits
  have hnested := hsound.nested
  rw [hpath] at hnested
  have hbefore {outer : Nat} (hmem : outer ∈ path.map Frame.vertex) :
      search.index outer < search.index vertex := by
    obtain ⟨frame, hframe, rfl⟩ := List.mem_map.1 hmem
    exact List.rel_of_pairwise_cons hnested hframe
  have hleft := h.leave hpath (hsound.standings.symm ▸ hsound.lt_order hwaits)
    (List.mem_append_left _ hwaits) fun hon => Nat.lt_irrefl _ (hbefore hon)
  have hresumes (final : Traversal Nat) (hrest : Resumes graph.next (traversal.leave vertex)
      (search.leaving vertex (lower lowlink path)).frames final) :
      Resumes graph.next traversal search.frames final := by
    unfold frames leaving at hrest
    rw [map_rest_lower] at hrest
    unfold frames
    rw [hpath]
    exact hrest.leave
  change Goes graph search (if (search.leaving vertex (lower lowlink path)).standing vertex = _
    then (search.leaving vertex (lower lowlink path)).group vertex
    else search.leaving vertex (lower lowlink path)) traversal (traversal.leave vertex)
  split
  · have hbooked : (search.leaving vertex (lower lowlink path)).Booked graph :=
      hsound.toBooked.onPath _ _ _
    obtain ⟨_, _, _, _, hpathAfter, -⟩ :=
      @group_eq (search.leaving vertex (lower lowlink path)) vertex hwaits
    refine ⟨hleft.group hbooked hwaits fun frame hmem => hbefore ?_, fun final hrest => hresumes final ?_⟩
    · rw [← map_vertex_lower lowlink]
      exact List.mem_map_of_mem hmem
    · unfold frames at hrest ⊢
      rwa [hpathAfter] at hrest
  · exact ⟨hleft, hresumes⟩

/-- The next successor was entered before. -/
theorem Traces.goes_past (hclosed : graph.Closed)
    (hpath : search.path = ⟨vertex, lowlink, other :: rest⟩ :: path)
    (hmet : search.standing other ≠ .unmet) (lowlink' : Nat) :
    Goes graph search { search with path := ⟨vertex, lowlink', rest⟩ :: path } traversal traversal := by
  refine ⟨h.look (by rw [hpath]; rfl), fun final hrest => ?_⟩
  have hmem : other ∈ traversal.entered := by
    rw [h.entered, List.mem_append]
    cases hstanding : search.standing other with
    | unmet => exact absurd hstanding hmet
    | waiting index => exact .inl ((hsound.waits other).2 ⟨index, hstanding⟩)
    | grouped => exact .inr ((hsound.grouped other).2
        ⟨hclosed vertex other (hsound.next_of_rest hpath), hstanding⟩)
  unfold frames
  rw [hpath]
  exact Resumes.again hmem hrest

theorem Traces.goes_enter (hpath : search.path = ⟨vertex, lowlink, other :: rest⟩ :: path)
    (hunmet : search.standing other = .unmet) :
    Goes graph search (search.enter graph other (⟨vertex, lowlink, rest⟩ :: path)) traversal
      (traversal.enter other) := by
  refine ⟨h.enter hsound.toBooked hunmet (by rw [hpath]; rfl), fun final hrest => ?_⟩
  unfold frames
  rw [hpath]
  exact Resumes.enter (fun hmem => hsound.toBooked.not_met hunmet ((h.entered other).1 hmem)) hrest

theorem Traces.step (hclosed : graph.Closed) :
    ∃ traversal', Goes graph search (search.step graph) traversal traversal' := by
  unfold Search.step
  split
  · exact ⟨traversal, h, fun _ => id⟩
  · rename_i hpath
    exact ⟨_, h.goes_leave hsound hpath⟩
  · rename_i vertex lowlink other rest path hpath
    split
    · rename_i hunmet
      exact ⟨_, h.goes_enter hsound hpath hunmet⟩
    · rename_i index hwaits
      exact ⟨_, h.goes_past hsound hclosed hpath (by rw [hwaits]; exact Standing.noConfusion) _⟩
    · rename_i hgrouped
      exact ⟨_, h.goes_past hsound hclosed hpath (by rw [hgrouped]; exact Standing.noConfusion) _⟩

end Steps

theorem Traces.run (h : search.Traces traversal) (hsound : search.Sound graph root)
    (hclosed : graph.Closed) (fuel : Nat) :
    ∃ traversal', Goes graph search (search.run graph fuel) traversal traversal' := by
  induction fuel generalizing search traversal with
  | zero => exact ⟨traversal, h, fun _ => id⟩
  | succ fuel ih =>
    unfold Search.run
    split
    · exact ⟨traversal, h, fun _ => id⟩
    · obtain ⟨mid, hstep⟩ := h.step hsound hclosed
      obtain ⟨after, hrest⟩ := ih hstep.traces hsound.step
      exact ⟨after, hrest.traces, fun final hresumes => hstep.resumes final (hrest.resumes final hresumes)⟩

theorem traces_start (hroot : root < graph.order) :
    ((blank graph).enter graph root []).Traces ⟨[root], []⟩ := by
  have hunmet : (blank graph).standing root = .unmet := (standing_blank graph root).trans (if_pos hroot)
  have hblank : (blank graph).Traces ⟨[], []⟩ :=
    ⟨fun _ => Iff.rfl, fun _ => ⟨fun hmem => (nomatch hmem), fun hmem => nomatch hmem.1⟩, .nil,
      (fun _ hmem => nomatch hmem), Array.size_replicate.trans Array.size_replicate.symm,
      fun _ hmem => nomatch hmem⟩
  exact hblank.enter (booked_blank graph) hunmet rfl

end Search

/-- A depth-first traversal from the root leaves what is in the components, and the members of each one
in the order in which they stand there. -/
theorem components_visits {root : Nat} (hclosed : graph.Closed) (hroot : root < graph.order) :
    ∃ traversal, Visits graph.next ⟨[], []⟩ [root] traversal ∧
      traversal.left.Perm (graph.components root).flatten ∧
        ∀ members ∈ graph.components root, members.Sublist traversal.left := by
  obtain ⟨traversal, hgoes⟩ :=
    (Search.traces_start hroot).run (Search.sound_start hroot) hclosed graph.extent
  have hstart : graph.searchFrom root = ((Search.blank graph).enter graph root []).run graph graph.extent :=
    if_pos hroot
  rw [← hstart] at hgoes
  have hpath := searchFrom_ends graph root
  have hstack := searchFrom_stack hroot
  have hparts := components_components graph root
  refine ⟨traversal, (hgoes.resumes traversal ?_).visits, ?_, fun members hmem =>
    hgoes.traces.found members (List.mem_reverse.1 hmem)⟩
  · unfold Search.frames
    rw [hpath]
    exact .done
  · refine (List.perm_ext_iff_of_nodup (hgoes.traces.sorted.imp fun hlt heq => ?_) hparts.nodup).2
      fun vertex => ?_
    · exact Nat.ne_of_lt hlt (congrArg _ heq)
    · have hfound : vertex ∈ (graph.components root).flatten ↔
          vertex ∈ (graph.searchFrom root).found.flatten := (List.reverse_perm _).flatten.mem_iff
      rw [hgoes.traces.left, hstack, hpath, hfound]
      exact and_iff_left List.not_mem_nil

end Graph

end ModuleLoader
