import Mathlib.Data.List.Nodup
import Mathlib.Data.List.Sort
import Mathlib.Logic.Relation
import ModuleLoader.Execution.Graph
/-!
What the search for components keeps: every waiting vertex is reached from all vertices of the path that
were entered before it, and reaches one that was entered before it, down to the lowlink of the path vertex
below it. So what is popped from the stack is a component.
-/

namespace ModuleLoader
set_option autoImplicit false

namespace Graph

variable {graph : Graph}

/-- There is a path from one vertex to another. -/
def Reaches (graph : Graph) : Nat → Nat → Prop :=
  Relation.ReflTransGen fun vertex other => other ∈ graph.next vertex

theorem lt_of_next {vertex other : Nat} (h : other ∈ graph.next vertex) : vertex < graph.order := by
  refine Nat.lt_of_not_le fun hle => ?_
  unfold next at h
  rw [Array.getElem?_eq_none hle] at h
  cases h

/-- A stack that holds a vertex is split below it. -/
theorem popTo_eq {vertex : Nat} : ∀ {stack : List Nat}, vertex ∈ stack → ∃ above below,
    stack = above ++ vertex :: below ∧ popTo vertex stack = (above ++ [vertex], below)
  | first :: rest, h => by
    unfold popTo
    by_cases hfirst : first = vertex
    · subst hfirst
      exact ⟨[], rest, rfl, if_pos rfl⟩
    · obtain ⟨above, below, rfl, hpop⟩ := popTo_eq ((List.mem_cons.1 h).resolve_left (Ne.symm hfirst))
      rw [if_neg hfirst, hpop]
      exact ⟨first :: above, below, rfl, rfl⟩

theorem insertBy_eq (key : Nat → Nat) (vertex : Nat) : ∀ vertices : List Nat,
    insertBy key vertex vertices = vertices.orderedInsert (fun a b => key a ≤ key b) vertex
  | [] => rfl
  | first :: rest => by
    unfold insertBy
    rw [List.orderedInsert_cons, insertBy_eq key vertex rest]

theorem sortBy_eq (key : Nat → Nat) (vertices : List Nat) :
    sortBy key vertices = vertices.insertionSort fun a b => key a ≤ key b := by
  induction vertices with
  | nil => rfl
  | cons vertex rest ih =>
    rw [List.insertionSort_cons, ← ih, ← insertBy_eq]
    rfl

theorem perm_sortBy (key : Nat → Nat) (vertices : List Nat) : (sortBy key vertices).Perm vertices := by
  rw [sortBy_eq]
  exact List.perm_insertionSort _ vertices

namespace Search

variable {search : Search} {vertex other root : Nat} {frame : Frame} {path : List Frame}

/-- How many vertices were entered before a waiting one. -/
def index (search : Search) (vertex : Nat) : Nat :=
  match search.standing vertex with
  | .waiting index => index
  | _ => 0

theorem index_of_waiting {index : Nat} (h : search.standing vertex = .waiting index) :
    search.index vertex = index := by
  unfold Search.index
  rw [h]

theorem standing_enter (h : vertex < search.standings.size) (path : List Frame) (other : Nat) :
    (search.enter graph vertex path).standing other =
      if other = vertex then .waiting search.entered else search.standing other := by
  unfold standing enter
  dsimp only
  rw [Array.getElem?_setIfInBounds]
  by_cases hsame : vertex = other
  · subst hsame
    rw [if_pos rfl, if_pos h, if_pos rfl]
    rfl
  · rw [if_neg hsame, if_neg (Ne.symm hsame)]

/-- Members of a component are grouped. -/
theorem standings_group (members : List Nat) (standings : Array Standing) (vertex : Nat) :
    let after := members.foldl (fun standings member => standings.setIfInBounds member .grouped) standings
    after.size = standings.size ∧ (after[vertex]?).getD .grouped =
      if vertex ∈ members then .grouped else (standings[vertex]?).getD .grouped := by
  induction members generalizing standings with
  | nil => exact ⟨rfl, (if_neg List.not_mem_nil).symm⟩
  | cons first rest ih =>
    obtain ⟨hsize, hget⟩ := ih (standings.setIfInBounds first .grouped)
    refine ⟨hsize.trans Array.size_setIfInBounds, hget.trans ?_⟩
    rw [Array.getElem?_setIfInBounds]
    by_cases hrest : vertex ∈ rest
    · rw [if_pos hrest, if_pos (List.mem_cons_of_mem _ hrest)]
    · by_cases hfirst : first = vertex
      · subst hfirst
        rw [if_neg hrest, if_pos rfl, if_pos List.mem_cons_self]
        split <;> rfl
      · rw [if_neg hrest, if_neg hfirst, if_neg]
        exact fun hmem => (List.mem_cons.1 hmem).elim (fun heq => hfirst heq.symm) hrest

/-- The vertex was entered, and if it still waits, not before a given index. -/
structure Above (search : Search) (low other : Nat) : Prop where
  met : search.standing other ≠ .unmet
  low : other ∈ search.stack → low ≤ search.index other

theorem Above.mono {low low' : Nat} (h : search.Above low other) (hle : low' ≤ low) :
    search.Above low' other :=
  ⟨h.met, fun hmem => Nat.le_trans hle (h.low hmem)⟩

end Search

/-- A vertex of the path reaches what was entered since, and its lowlink, which no successor that was
looked at lies below. -/
structure Frame.Sound (graph : Graph) (search : Search) (frame : Frame) : Prop where
  waits : frame.vertex ∈ search.stack
  low : frame.lowlink ≤ search.index frame.vertex
  back : ∃ other ∈ search.stack, search.index other = frame.lowlink ∧
    graph.Reaches frame.vertex other
  seen : ∃ seen, graph.next frame.vertex = seen ++ frame.rest ∧
    ∀ other ∈ seen, search.Above frame.lowlink other
  reaches : ∀ other ∈ search.stack, search.index frame.vertex ≤ search.index other →
    graph.Reaches frame.vertex other

namespace Search

/-- A waiting vertex was left after it was entered from a vertex of the path. It reaches one that was
entered before it, and neither that one nor a successor lies below the lowlink. -/
structure Under (graph : Graph) (search : Search) (path : List Frame) (frame : Frame) (vertex : Nat) :
    Prop where
  mem : frame ∈ path
  after : search.index frame.vertex < search.index vertex
  /-- No vertex of the path was entered between the two. -/
  innermost : ∀ other ∈ path, search.index other.vertex < search.index vertex →
    search.index other.vertex ≤ search.index frame.vertex
  back : ∃ other ∈ search.stack, frame.lowlink ≤ search.index other ∧
    search.index other < search.index vertex ∧ graph.Reaches vertex other
  seen : ∀ other ∈ graph.next vertex, search.Above frame.lowlink other

/-- The stack and the components are what the standings of the vertices say, and the stack is in the order
in which they were entered. -/
structure Booked (graph : Graph) (search : Search) : Prop where
  standings : search.standings.size = graph.order
  waits : ∀ vertex, vertex ∈ search.stack ↔ ∃ index, search.standing vertex = .waiting index
  grouped : ∀ vertex, vertex ∈ search.found.flatten ↔
    vertex < graph.order ∧ search.standing vertex = .grouped
  sorted : search.stack.Pairwise fun vertex other => search.index other < search.index vertex
  entered : ∀ vertex ∈ search.stack, search.index vertex < search.entered

/-- Components that were found, the last one first: none of them leads to another one found later. -/
structure Parts (graph : Graph) (found : List (List Nat)) : Prop where
  nodup : found.flatten.Nodup
  closed : ∀ vertex ∈ found.flatten, ∀ other ∈ graph.next vertex, other < graph.order →
    other ∈ found.flatten
  nonempty : ∀ members ∈ found, members ≠ []
  joined : ∀ members ∈ found, ∀ vertex ∈ members, ∀ other ∈ members, graph.Reaches vertex other
  apart : found.Pairwise fun later members => ∀ vertex ∈ later, ∀ other ∈ members,
    ¬ graph.Reaches other vertex

/-- What holds of a search from a root. -/
structure Sound (graph : Graph) (root : Nat) (search : Search) : Prop extends
    Booked graph search where
  nested : search.path.Pairwise fun frame other =>
    search.index other.vertex < search.index frame.vertex
  frames : ∀ frame ∈ search.path, frame.Sound graph search
  under : ∀ vertex ∈ search.stack, vertex ∉ search.path.map Frame.vertex →
    ∃ frame, search.Under graph search.path frame vertex
  rooted : ∀ vertex ∈ search.stack ++ search.found.flatten, graph.Reaches root vertex
  start : root ∈ search.stack ++ search.found.flatten
  parts : Parts graph search.found

section

variable {search : Search} {vertex other root : Nat} {frame : Frame} {path : List Frame}

namespace Booked

theorem standing_of_mem (h : search.Booked graph) (hmem : vertex ∈ search.stack) :
    search.standing vertex = .waiting (search.index vertex) := by
  obtain ⟨index, hindex⟩ := (h.waits vertex).1 hmem
  rw [index_of_waiting hindex, hindex]

theorem lt_size_of_ne_grouped (h : search.standing vertex ≠ .grouped) :
    vertex < search.standings.size := by
  refine Nat.lt_of_not_le fun hle => h ?_
  unfold Search.standing
  rw [Array.getElem?_eq_none hle]
  rfl

theorem lt_order (h : search.Booked graph) (hmem : vertex ∈ search.stack) : vertex < graph.order := by
  rw [← h.standings]
  refine lt_size_of_ne_grouped fun hgrouped => ?_
  rw [h.standing_of_mem hmem] at hgrouped
  cases hgrouped

theorem index_inj (h : search.Booked graph) (hmem : vertex ∈ search.stack)
    (hother : other ∈ search.stack) (hindex : search.index vertex = search.index other) :
    vertex = other :=
  List.inj_on_of_nodup_map
    (List.pairwise_map.2 (h.sorted.imp fun hlt heq => Nat.ne_of_gt hlt heq)) hmem hother hindex

/-- A vertex that waits is in no component. -/
theorem not_found (h : search.Booked graph) (hmem : vertex ∈ search.stack) :
    vertex ∉ search.found.flatten := by
  intro hfound
  have hgrouped := ((h.grouped vertex).1 hfound).2
  rw [h.standing_of_mem hmem] at hgrouped
  cases hgrouped

theorem not_waits (h : search.Booked graph) (hunmet : search.standing vertex = .unmet) :
    vertex ∉ search.stack := by
  intro hmem
  rw [h.standing_of_mem hmem] at hunmet
  cases hunmet

/-- The other vertices keep their index when one is entered. -/
theorem index_enter (h : search.Booked graph) (hunmet : search.standing other = .unmet)
    (hmem : vertex ∈ search.stack) :
    (search.enter graph other path).index vertex = search.index vertex := by
  have hsize := lt_size_of_ne_grouped (by rw [hunmet]; exact Standing.noConfusion)
  have hne : vertex ≠ other := fun heq => h.not_waits hunmet (heq ▸ hmem)
  unfold Search.index
  rw [standing_enter hsize, if_neg hne]

theorem index_enter_self (hunmet : search.standing other = .unmet) :
    (search.enter graph other path).index other = search.entered := by
  have hsize := lt_size_of_ne_grouped (by rw [hunmet]; exact Standing.noConfusion)
  exact index_of_waiting ((standing_enter hsize path other).trans (if_pos rfl))

theorem enter (h : search.Booked graph) (hunmet : search.standing other = .unmet) :
    (search.enter graph other path).Booked graph := by
  have hsize := lt_size_of_ne_grouped (by rw [hunmet]; exact Standing.noConfusion)
  refine ⟨Array.size_setIfInBounds.trans h.standings, fun found => ?_, fun found => ?_,
    List.pairwise_cons.2 ⟨fun found hmem => ?_, h.sorted.imp_of_mem fun hmem hmem' hlt => ?_⟩,
    fun found hmem => ?_⟩
  · rw [standing_enter hsize]
    change found ∈ other :: search.stack ↔ _
    rw [List.mem_cons]
    by_cases hsame : found = other
    · rw [if_pos hsame]
      exact ⟨fun _ => ⟨_, rfl⟩, fun _ => .inl hsame⟩
    · rw [if_neg hsame, ← h.waits]
      exact or_iff_right hsame
  · rw [standing_enter hsize]
    change found ∈ search.found.flatten ↔ _
    by_cases hsame : found = other
    · rw [if_pos hsame, h.grouped, hsame, hunmet]
      exact ⟨fun hgrouped => (nomatch hgrouped.2), fun hgrouped => nomatch hgrouped.2⟩
    · rw [if_neg hsame]
      exact h.grouped found
  · rw [index_enter_self hunmet, h.index_enter hunmet hmem]
    exact h.entered found hmem
  · rwa [h.index_enter hunmet hmem, h.index_enter hunmet hmem']
  · change _ < search.entered + 1
    rcases List.mem_cons.1 hmem with rfl | hmem
    · rw [index_enter_self hunmet]
      exact Nat.lt_succ_self _
    · rw [h.index_enter hunmet hmem]
      exact Nat.lt_succ_of_lt (h.entered found hmem)

end Booked

/-- What lies above an index does so when another vertex is entered. -/
theorem Above.enter (h : search.Booked graph) (hunmet : search.standing other = .unmet) {low : Nat}
    (habove : search.Above low vertex) : (search.enter graph other path).Above low vertex := by
  have hsize := Booked.lt_size_of_ne_grouped (by rw [hunmet]; exact Standing.noConfusion)
  have hne : vertex ≠ other := fun heq => habove.met (heq ▸ hunmet)
  refine ⟨?_, fun hmem => ?_⟩
  · rw [standing_enter hsize, if_neg hne]
    exact habove.met
  · have hmem := (List.mem_cons.1 hmem).resolve_left hne
    rw [h.index_enter hunmet hmem]
    exact habove.low hmem

end

end Search

section

open Search

variable {search : Search} {vertex other root : Nat} {frame : Frame} {path : List Frame}

namespace Frame.Sound

/-- A successor is looked at, and the lowlink may fall. -/
theorem look {lowlink lowlink' : Nat} {rest : List Nat}
    (h : Frame.Sound graph search ⟨vertex, lowlink, other :: rest⟩) (hle : lowlink' ≤ lowlink)
    (habove : search.Above lowlink' other) (hback : ∃ back ∈ search.stack,
      search.index back = lowlink' ∧ graph.Reaches vertex back) :
    Frame.Sound graph search ⟨vertex, lowlink', rest⟩ where
  waits := h.waits
  low := Nat.le_trans hle h.low
  back := hback
  seen := by
    obtain ⟨seen, hseen, hall⟩ := h.seen
    refine ⟨seen ++ [other], by rw [hseen, List.append_assoc]; rfl, fun found hmem => ?_⟩
    rcases List.mem_append.1 hmem with hmem | hmem
    · exact (hall found hmem).mono hle
    · rwa [List.mem_singleton.1 hmem]
  reaches := h.reaches

/-- The lowlink falls to that of a vertex which is left. -/
theorem lower (h : frame.Sound graph search) {lowlink : Nat} (hback : ∃ back ∈ search.stack,
    search.index back = lowlink ∧ graph.Reaches frame.vertex back) :
    Frame.Sound graph search { frame with lowlink := min frame.lowlink lowlink } where
  waits := h.waits
  low := Nat.le_trans (Nat.min_le_left _ _) h.low
  back := by
    rcases Nat.le_total frame.lowlink lowlink with hle | hle
    · rw [Nat.min_eq_left hle]
      exact h.back
    · rw [Nat.min_eq_right hle]
      exact hback
  seen := by
    obtain ⟨seen, hseen, hall⟩ := h.seen
    exact ⟨seen, hseen, fun found hmem => (hall found hmem).mono (Nat.min_le_left _ _)⟩
  reaches := h.reaches

/-- A vertex that is reached from the path is entered. -/
theorem enter (h : frame.Sound graph search) (hbooked : search.Booked graph)
    (hunmet : search.standing other = .unmet) (hreaches : graph.Reaches frame.vertex other)
    (path : List Frame) : frame.Sound graph (search.enter graph other path) where
  waits := List.mem_cons_of_mem _ h.waits
  low := by
    rw [hbooked.index_enter hunmet h.waits]
    exact h.low
  back := by
    obtain ⟨back, hback, hlow, hpath⟩ := h.back
    exact ⟨back, List.mem_cons_of_mem _ hback, (hbooked.index_enter hunmet hback).trans hlow, hpath⟩
  seen := by
    obtain ⟨seen, hseen, hall⟩ := h.seen
    exact ⟨seen, hseen, fun found hmem => (hall found hmem).enter hbooked hunmet⟩
  reaches found hmem hle := by
    rcases List.mem_cons.1 hmem with rfl | hmem
    · exact hreaches
    · rw [hbooked.index_enter hunmet h.waits, hbooked.index_enter hunmet hmem] at hle
      exact h.reaches found hmem hle

/-- A vertex that was just entered reaches itself, and nothing was entered since. -/
theorem fresh (hbooked : search.Booked graph) (hunmet : search.standing other = .unmet) (path : List Frame) :
    Frame.Sound graph (search.enter graph other path) ⟨other, search.entered, graph.next other⟩ where
  waits := List.mem_cons_self
  low := Nat.le_of_eq (Booked.index_enter_self hunmet).symm
  back := ⟨other, List.mem_cons_self, Booked.index_enter_self hunmet, .refl⟩
  seen := ⟨[], rfl, nofun⟩
  reaches found hmem hle := by
    rcases List.mem_cons.1 hmem with rfl | hmem
    · exact .refl
    · rw [Booked.index_enter_self hunmet, hbooked.index_enter hunmet hmem] at hle
      exact absurd (hbooked.entered found hmem) (Nat.not_lt_of_le hle)

end Frame.Sound

namespace Search

/-- A path may change as long as its vertices stay, and the lowlink falls. -/
theorem Under.replace (h : search.Under graph path frame vertex) {path' : List Frame} {frame' : Frame}
    (hmem : frame' ∈ path') (hvertex : frame'.vertex = frame.vertex)
    (hlow : frame'.lowlink ≤ frame.lowlink)
    (hpath : ∀ other ∈ path', search.index other.vertex < search.index vertex →
      ∃ before ∈ path, before.vertex = other.vertex) : search.Under graph path' frame' vertex where
  mem := hmem
  after := hvertex ▸ h.after
  innermost other hother hlt := by
    obtain ⟨before, hbefore, heq⟩ := hpath other hother hlt
    rw [hvertex, ← heq]
    exact h.innermost before hbefore (heq ▸ hlt)
  back := by
    obtain ⟨back, hback, hle, hrest⟩ := h.back
    exact ⟨back, hback, Nat.le_trans hlow hle, hrest⟩
  seen found hmem := (h.seen found hmem).mono hlow

/-- Another frame for the innermost vertex, with a lowlink that may have fallen. -/
theorem Under.look (h : search.Under graph search.path frame vertex) {first : Nat}
    {lowlink lowlink' : Nat} {before : List Nat} (hpath : search.path = ⟨first, lowlink, before⟩ :: path)
    (hle : lowlink' ≤ lowlink) (rest : List Nat) :
    ∃ frame', search.Under graph (⟨first, lowlink', rest⟩ :: path) frame' vertex := by
  have hsame : ∀ other ∈ (⟨first, lowlink', rest⟩ :: path : List Frame),
      search.index other.vertex < search.index vertex →
        ∃ before ∈ search.path, before.vertex = other.vertex := by
    intro other hmem _
    rcases List.mem_cons.1 hmem with rfl | hmem
    · exact ⟨⟨first, lowlink, before⟩, hpath ▸ List.mem_cons_self, rfl⟩
    · exact ⟨other, hpath ▸ List.mem_cons_of_mem _ hmem, rfl⟩
  have hmem := h.mem
  rw [hpath] at hmem
  rcases List.mem_cons.1 hmem with rfl | hmem
  · exact ⟨_, h.replace List.mem_cons_self rfl hle hsame⟩
  · exact ⟨frame, h.replace (List.mem_cons_of_mem _ hmem) rfl (Nat.le_refl _) hsame⟩

/-- What is under the innermost vertex of a path, of which the lowlink may have fallen. -/
theorem Under.lowered {parent : Frame} {outer : List Frame} {lowlink : Nat}
    (hinnermost : ∀ found ∈ outer, search.index found.vertex ≤ search.index parent.vertex)
    (hafter : search.index parent.vertex < search.index vertex)
    (hback : ∃ back ∈ search.stack, lowlink ≤ search.index back ∧
      search.index back < search.index vertex ∧ graph.Reaches vertex back)
    (hseen : ∀ other ∈ graph.next vertex, search.Above lowlink other) :
    search.Under graph ({ parent with lowlink := min parent.lowlink lowlink } :: outer)
      { parent with lowlink := min parent.lowlink lowlink } vertex where
  mem := List.mem_cons_self
  after := hafter
  innermost other hother _ := by
    rcases List.mem_cons.1 hother with rfl | hother
    · exact Nat.le_refl _
    · exact hinnermost other hother
  back := by
    obtain ⟨back, hmem, hle, hrest⟩ := hback
    exact ⟨back, hmem, Nat.le_trans (Nat.min_le_right _ _) hle, hrest⟩
  seen other hother := (hseen other hother).mono (Nat.min_le_right _ _)

theorem Under.enter (h : search.Under graph path frame vertex) (hbooked : search.Booked graph)
    (hunmet : search.standing other = .unmet) (hmem : vertex ∈ search.stack)
    (hpath : ∀ frame ∈ path, frame.vertex ∈ search.stack) (path' : List Frame) :
    (search.enter graph other path').Under graph path frame vertex where
  mem := h.mem
  after := by
    rw [hbooked.index_enter hunmet hmem, hbooked.index_enter hunmet (hpath frame h.mem)]
    exact h.after
  innermost found hfound hlt := by
    rw [hbooked.index_enter hunmet hmem, hbooked.index_enter hunmet (hpath found hfound)] at hlt
    rw [hbooked.index_enter hunmet (hpath frame h.mem), hbooked.index_enter hunmet (hpath found hfound)]
    exact h.innermost found hfound hlt
  back := by
    obtain ⟨back, hback, hle, hlt, hreaches⟩ := h.back
    refine ⟨back, List.mem_cons_of_mem _ hback, ?_, ?_, hreaches⟩
    · rwa [hbooked.index_enter hunmet hback]
    · rwa [hbooked.index_enter hunmet hback, hbooked.index_enter hunmet hmem]
  seen found hfound := (h.seen found hfound).enter hbooked hunmet

/-! The path, and what was left, count for nothing here. -/

variable (exits : Array Nat) (left : Nat) (path' : List Frame)

theorem Above.onPath {low : Nat} (h : search.Above low vertex) :
    Above { search with exits, left, path := path' } low vertex :=
  ⟨h.met, h.low⟩

theorem frame_onPath (h : frame.Sound graph search) :
    frame.Sound graph { search with exits, left, path := path' } := by
  obtain ⟨seen, hseen, hall⟩ := h.seen
  exact ⟨h.waits, h.low, h.back,
    ⟨seen, hseen, fun other hmem => (hall other hmem).onPath exits left path'⟩, h.reaches⟩

theorem Under.onPath (h : search.Under graph path frame vertex) :
    Under graph { search with exits, left, path := path' } path frame vertex :=
  ⟨h.mem, h.after, h.innermost, h.back, fun other hmem => (h.seen other hmem).onPath exits left path'⟩

theorem Booked.onPath (h : search.Booked graph) :
    Booked graph { search with exits, left, path := path' } :=
  ⟨h.standings, h.waits, h.grouped, h.sorted, h.entered⟩

namespace Sound

/-- The innermost vertex was entered after the others on the path. -/
theorem before (h : search.Sound graph root) (hpath : search.path = frame :: path) {outer : Frame}
    (hmem : outer ∈ path) : search.index outer.vertex < search.index frame.vertex := by
  have hnested := h.nested
  rw [hpath] at hnested
  exact List.rel_of_pairwise_cons hnested hmem

/-- Whoever is on the path was entered before the innermost vertex, and reaches it. -/
theorem reaches_innermost (h : search.Sound graph root) (hpath : search.path = frame :: path)
    {outer : Frame} (hmem : outer ∈ search.path) : graph.Reaches outer.vertex frame.vertex := by
  have hframe := h.frames frame (hpath ▸ List.mem_cons_self)
  refine (h.frames outer hmem).reaches frame.vertex hframe.waits ?_
  rw [hpath] at hmem
  rcases List.mem_cons.1 hmem with rfl | hmem
  · exact Nat.le_refl _
  · exact Nat.le_of_lt (h.before hpath hmem)

/-- A successor of the innermost vertex that was not looked at. -/
theorem next_of_rest (h : search.Sound graph root) {lowlink : Nat} {rest : List Nat}
    (hpath : search.path = ⟨vertex, lowlink, other :: rest⟩ :: path) : other ∈ graph.next vertex := by
  obtain ⟨seen, hseen, -⟩ := (h.frames _ (hpath ▸ List.mem_cons_self)).seen
  rw [hseen]
  exact List.mem_append_right _ List.mem_cons_self

/-- The innermost vertex looked at a successor, and its lowlink may have fallen. -/
theorem look (h : search.Sound graph root) {lowlink lowlink' : Nat} {rest : List Nat}
    (hpath : search.path = ⟨vertex, lowlink, other :: rest⟩ :: path) (hle : lowlink' ≤ lowlink)
    (habove : search.Above lowlink' other) (hback : ∃ back ∈ search.stack,
      search.index back = lowlink' ∧ graph.Reaches vertex back) :
    Sound graph root { search with path := ⟨vertex, lowlink', rest⟩ :: path } := by
  have hnested := h.nested
  rw [hpath] at hnested
  refine ⟨h.toBooked.onPath _ _ _, List.pairwise_cons.2 (List.pairwise_cons.1 hnested),
    fun frame hmem => frame_onPath _ _ _ ?_, fun found hmem hnot => ?_, h.rooted, h.start, h.parts⟩
  · rcases List.mem_cons.1 hmem with rfl | hmem
    · exact (h.frames _ (hpath ▸ List.mem_cons_self)).look hle habove hback
    · exact h.frames frame (hpath ▸ List.mem_cons_of_mem _ hmem)
  · obtain ⟨frame, hunder⟩ := h.under found hmem (by rw [hpath]; exact hnot)
    obtain ⟨frame', hunder⟩ := hunder.look hpath hle rest
    exact ⟨frame', hunder.onPath _ _ _⟩

/-- An unmet vertex is entered from the innermost one. -/
theorem enter (h : search.Sound graph root) {lowlink : Nat} {rest : List Nat}
    (hpath : search.path = ⟨vertex, lowlink, other :: rest⟩ :: path)
    (hunmet : search.standing other = .unmet) :
    (search.enter graph other (⟨vertex, lowlink, rest⟩ :: path)).Sound graph root := by
  have hedge := h.next_of_rest hpath
  have hfirst := h.frames _ (hpath ▸ List.mem_cons_self)
  have hbooked := h.toBooked
  have hnested := h.nested
  rw [hpath] at hnested
  let path' : List Frame := ⟨vertex, lowlink, rest⟩ :: path
  have hnested : path'.Pairwise fun frame other =>
      search.index other.vertex < search.index frame.vertex :=
    List.pairwise_cons.2 (List.pairwise_cons.1 hnested)
  have hnew : (search.enter graph other path').index other = search.entered :=
    Booked.index_enter_self hunmet
  have hindex {found : Nat} (hmem : found ∈ search.stack) :
      (search.enter graph other path').index found = search.index found := hbooked.index_enter hunmet hmem
  have hwaits (frame : Frame) (hmem : frame ∈ path') : frame.vertex ∈ search.stack := by
    rcases List.mem_cons.1 hmem with rfl | hmem
    · exact hfirst.waits
    · exact (h.frames frame (hpath ▸ List.mem_cons_of_mem _ hmem)).waits
  have hframes (frame : Frame) (hmem : frame ∈ search.path) :
      frame.Sound graph (search.enter graph other path') :=
    (h.frames frame hmem).enter hbooked hunmet ((h.reaches_innermost hpath hmem).tail hedge) path'
  refine ⟨hbooked.enter hunmet, List.pairwise_cons.2 ⟨fun frame hmem => ?_,
    hnested.imp_of_mem fun hmem hmem' hlt => ?_⟩, fun frame hmem => ?_, fun found hmem hnot => ?_,
    fun found hmem => ?_, List.mem_cons_of_mem _ h.start, h.parts⟩
  · rw [hnew, hindex (hwaits frame hmem)]
    exact h.entered _ (hwaits frame hmem)
  · rwa [hindex (hwaits _ hmem), hindex (hwaits _ hmem')]
  · rcases List.mem_cons.1 hmem with rfl | hmem
    · exact .fresh hbooked hunmet path'
    rcases List.mem_cons.1 hmem with rfl | hmem
    · have hfirst' := hframes _ (hpath ▸ List.mem_cons_self)
      refine hfirst'.look (Nat.le_refl _) ⟨?_, fun _ => ?_⟩ hfirst'.back
      · rw [standing_enter (Booked.lt_size_of_ne_grouped (by rw [hunmet]; exact Standing.noConfusion)),
          if_pos rfl]
        exact Standing.noConfusion
      · rw [hnew]
        exact Nat.le_of_lt (Nat.lt_of_le_of_lt hfirst.low (h.entered vertex hfirst.waits))
    · exact hframes frame (hpath ▸ List.mem_cons_of_mem _ hmem)
  · have hne : found ≠ other := fun heq => hnot (heq ▸ List.mem_cons_self)
    have hmem : found ∈ search.stack := (List.mem_cons.1 hmem).resolve_left hne
    obtain ⟨frame, hunder⟩ := h.under found hmem fun hon => hnot (List.mem_cons_of_mem _ (by
      rw [hpath] at hon
      exact hon))
    obtain ⟨frame', hunder⟩ := hunder.look hpath (Nat.le_refl _) rest
    have hafter := hunder.enter hbooked hunmet hmem hwaits path'
    refine ⟨frame', hafter.replace (List.mem_cons_of_mem _ hunder.mem) rfl (Nat.le_refl _)
      fun outer houter hlt => ?_⟩
    rcases List.mem_cons.1 houter with rfl | houter
    · rw [hnew, hindex hmem] at hlt
      exact absurd (h.entered found hmem) (Nat.not_lt_of_lt hlt)
    · exact ⟨outer, houter, rfl⟩
  · rcases List.mem_cons.1 hmem with rfl | hmem
    · exact .tail (h.rooted vertex (List.mem_append_left _ hfirst.waits)) hedge
    · exact h.rooted found hmem

/-- Below a vertex that reaches one entered before it, there is another one on the path. -/
theorem exists_outer (h : search.Sound graph root) (hpath : search.path = frame :: path)
    (hmem : other ∈ search.stack) (hlt : search.index other < search.index frame.vertex) :
    ∃ parent outer, path = parent :: outer := by
  have hfound : ∃ found ∈ search.path, search.index found.vertex ≤ search.index other := by
    by_cases hon : other ∈ search.path.map Frame.vertex
    · obtain ⟨found, hfound, rfl⟩ := List.mem_map.1 hon
      exact ⟨found, hfound, Nat.le_refl _⟩
    · obtain ⟨found, hunder⟩ := h.under other hmem hon
      exact ⟨found, hunder.mem, Nat.le_of_lt hunder.after⟩
  obtain ⟨found, hfound, hle⟩ := hfound
  rw [hpath] at hfound
  rcases List.mem_cons.1 hfound with rfl | hfound
  · exact absurd hlt (Nat.not_lt_of_le hle)
  · exact List.exists_cons_of_ne_nil (List.ne_nil_of_mem hfound)

/-- The innermost vertex is left and waits on. -/
theorem keep (h : search.Sound graph root) {lowlink : Nat}
    (hpath : search.path = ⟨vertex, lowlink, []⟩ :: path)
    (hback : search.standing vertex ≠ .waiting lowlink) (exits : Array Nat) (left : Nat) :
    Sound graph root { search with exits, left, path := lower lowlink path } := by
  have hfirst := h.frames _ (hpath ▸ List.mem_cons_self)
  have hlt : lowlink < search.index vertex := by
    refine Nat.lt_of_le_of_ne hfirst.low fun heq => hback ?_
    rw [h.standing_of_mem hfirst.waits, ← heq]
  obtain ⟨back, hmemBack, hindexBack, hreachesBack⟩ := hfirst.back
  obtain ⟨parent, outer, rfl⟩ := h.exists_outer hpath hmemBack (hindexBack ▸ hlt)
  have hnested := h.nested
  rw [hpath] at hnested
  obtain ⟨hbefore, hnested⟩ := List.pairwise_cons.1 hnested
  have hparent : parent ∈ search.path := hpath ▸ List.mem_cons_of_mem _ List.mem_cons_self
  have hparentLt := hbefore parent List.mem_cons_self
  have hinnermost (found : Frame) (hmem : found ∈ outer) :
      search.index found.vertex ≤ search.index parent.vertex :=
    Nat.le_of_lt (List.rel_of_pairwise_cons hnested hmem)
  refine ⟨h.toBooked.onPath _ _ _, List.pairwise_cons.2 (List.pairwise_cons.1 hnested),
    fun frame hmem => frame_onPath _ _ _ ?_, fun found hmem hnot => ?_, h.rooted, h.start, h.parts⟩
  · rcases List.mem_cons.1 hmem with rfl | hmem
    · exact (h.frames parent hparent).lower ⟨back, hmemBack, hindexBack,
        (h.reaches_innermost hpath hparent).trans hreachesBack⟩
    · exact h.frames frame (hpath ▸ List.mem_cons_of_mem _ (List.mem_cons_of_mem _ hmem))
  -- What was under the vertex that is left, and this one itself, is under the next one out.
  · suffices hunder : ∃ frame, search.Under graph (lower lowlink (parent :: outer)) frame found by
      obtain ⟨frame, hunder⟩ := hunder
      exact ⟨frame, hunder.onPath _ _ _⟩
    by_cases hsame : found = vertex
    · subst hsame
      obtain ⟨seen, hseen, hall⟩ := hfirst.seen
      rw [List.append_nil] at hseen
      exact ⟨_, .lowered hinnermost hparentLt ⟨back, hmemBack, Nat.le_of_eq hindexBack.symm,
        hindexBack ▸ hlt, hreachesBack⟩ fun other hother => hall other (hseen ▸ hother)⟩
    obtain ⟨frame, hunder⟩ := h.under found hmem (by
      rw [hpath]
      exact fun hon => (List.mem_cons.1 hon).elim hsame hnot)
    have hkeeps : ∀ other ∈ lower lowlink (parent :: outer),
        search.index other.vertex < search.index found →
          ∃ before ∈ search.path, before.vertex = other.vertex := by
      intro other hother _
      rcases List.mem_cons.1 hother with rfl | hother
      · exact ⟨parent, hparent, rfl⟩
      · exact ⟨other, hpath ▸ List.mem_cons_of_mem _ (List.mem_cons_of_mem _ hother), rfl⟩
    have hmemFrame := hunder.mem
    rw [hpath] at hmemFrame
    rcases List.mem_cons.1 hmemFrame with rfl | hmemFrame
    · exact ⟨_, .lowered hinnermost (Nat.lt_trans hparentLt hunder.after) hunder.back hunder.seen⟩
    · rcases List.mem_cons.1 hmemFrame with rfl | hmemFrame
      · exact ⟨_, hunder.replace List.mem_cons_self rfl (Nat.min_le_left _ _) hkeeps⟩
      · exact ⟨frame, hunder.replace (List.mem_cons_of_mem _ hmemFrame) rfl (Nat.le_refl _) hkeeps⟩

end Sound

end Search

end

end Graph

end ModuleLoader
