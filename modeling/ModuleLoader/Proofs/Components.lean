import ModuleLoader.Proofs.Graphs
/-!
What the search finds: whatever is popped from the stack is a component, every step brings the end nearer,
and a search that has ended has found the components of all that its root reaches, each of them after all
that it leads to.
-/

namespace ModuleLoader
set_option autoImplicit false

namespace Graph

variable {graph : Graph}

section

open Search

variable {search : Search} {vertex other root : Nat} {frame : Frame} {path : List Frame}

namespace Search

/-- From components that were found, no path leads to another vertex. -/
theorem Parts.of_reaches {found : List (List Nat)} (h : Parts graph found)
    (hmem : vertex ∈ found.flatten) (hreaches : graph.Reaches vertex other)
    (hother : other < graph.order) : other ∈ found.flatten := by
  induction hreaches with
  | refl => exact hmem
  | tail _ hnext ih => exact h.closed _ (ih (lt_of_next hnext)) _ hnext hother

/-- A vertex closes a component with what was pushed on the stack above it: they reach each other, and
lead to nothing else but components that were found. -/
structure Closes (graph : Graph) (search : Search) (vertex : Nat) (above below : List Nat) : Prop where
  stack : search.stack = above ++ vertex :: below
  forth : ∀ other ∈ above ++ [vertex], graph.Reaches vertex other
  back : ∀ other ∈ above ++ [vertex], graph.Reaches other vertex
  next : ∀ member ∈ above ++ [vertex], ∀ other ∈ graph.next member, other < graph.order →
    other ∈ above ++ [vertex] ∨ other ∈ search.found.flatten

namespace Booked

/-- A vertex on the stack splits it into those entered later and those entered before. -/
theorem split (h : search.Booked graph) {above below : List Nat}
    (hstack : search.stack = above ++ vertex :: below) :
    (∀ other ∈ above, search.index vertex < search.index other) ∧
      (∀ other ∈ below, search.index other < search.index vertex) ∧
        ∀ other ∈ above ++ [vertex], other ∉ below := by
  have hsorted := h.sorted
  rw [hstack] at hsorted
  obtain ⟨-, hlow, hcross⟩ := List.pairwise_append.1 hsorted
  have hbelow : ∀ other ∈ below, search.index other < search.index vertex :=
    (List.pairwise_cons.1 hlow).1
  refine ⟨fun other hmem => hcross other hmem vertex List.mem_cons_self, hbelow, fun other hmem hin => ?_⟩
  have hlt := hbelow other hin
  rcases List.mem_append.1 hmem with hmem | hmem
  · exact Nat.lt_irrefl _ (Nat.lt_trans (hcross other hmem vertex List.mem_cons_self) hlt)
  · exact Nat.lt_irrefl _ (List.mem_singleton.1 hmem ▸ hlt)

/-- Whether a waiting vertex was entered before another one, or stands at or above it. -/
theorem mem_of_le (h : search.Booked graph) {above below : List Nat}
    (hstack : search.stack = above ++ vertex :: below) (hmem : other ∈ search.stack)
    (hle : search.index vertex ≤ search.index other) : other ∈ above ++ [vertex] := by
  obtain ⟨-, hbelow, -⟩ := h.split hstack
  rw [hstack] at hmem
  rcases List.mem_append.1 hmem with hmem | hmem
  · exact List.mem_append_left _ hmem
  · rcases List.mem_cons.1 hmem with rfl | hmem
    · exact List.mem_append_right _ (List.mem_singleton_self _)
    · exact absurd (hbelow other hmem) (Nat.not_lt_of_le hle)

theorem mem_of_lt (h : search.Booked graph) {above below : List Nat}
    (hstack : search.stack = above ++ vertex :: below) (hmem : other ∈ search.stack)
    (hlt : search.index other < search.index vertex) : other ∈ below := by
  obtain ⟨habove, -, -⟩ := h.split hstack
  rw [hstack] at hmem
  rcases List.mem_append.1 hmem with hmem | hmem
  · exact absurd (habove other hmem) (Nat.not_lt_of_lt hlt)
  · rcases List.mem_cons.1 hmem with rfl | hmem
    · exact absurd hlt (Nat.lt_irrefl _)
    · exact hmem

end Booked

namespace Sound

/-- What was entered after the innermost vertex and waits is under it. -/
theorem under_innermost (h : search.Sound graph root) (hpath : search.path = frame :: path)
    (hmem : other ∈ search.stack) (hlt : search.index frame.vertex < search.index other) :
    search.Under graph search.path frame other := by
  have hoff : other ∉ search.path.map Frame.vertex := by
    intro hon
    obtain ⟨found, hfound, rfl⟩ := List.mem_map.1 hon
    rw [hpath] at hfound
    rcases List.mem_cons.1 hfound with rfl | hfound
    · exact Nat.lt_irrefl _ hlt
    · exact Nat.lt_irrefl _ (Nat.lt_trans hlt (h.before hpath hfound))
  obtain ⟨found, hunder⟩ := h.under other hmem hoff
  have hle := hunder.innermost _ (hpath ▸ List.mem_cons_self) hlt
  have hfound := hunder.mem
  rw [hpath] at hfound
  rcases List.mem_cons.1 hfound with rfl | hfound
  · exact hunder
  · exact absurd (h.before hpath hfound) (Nat.not_lt_of_le hle)

/-- What was entered after the innermost vertex reaches it, if the lowlink of this one is its own index. -/
theorem reaches_back (h : search.Sound graph root) (hpath : search.path = frame :: path)
    (hindex : search.index frame.vertex = frame.lowlink) (bound : Nat) :
    ∀ other ∈ search.stack, search.index frame.vertex ≤ search.index other →
      search.index other < bound → graph.Reaches other frame.vertex := by
  -- From vertex to vertex the index falls, but never below that of the innermost one.
  induction bound with
  | zero => exact fun _ _ _ hlt => absurd hlt (Nat.not_lt_zero _)
  | succ bound ih =>
    intro other hmem hle hlt
    rcases Nat.eq_or_lt_of_le hle with heq | hafter
    · have hwaits := (h.frames frame (hpath ▸ List.mem_cons_self)).waits
      exact h.toBooked.index_inj hmem hwaits heq.symm ▸ .refl
    · obtain ⟨back, hback, hlow, hless, hreaches⟩ := (h.under_innermost hpath hmem hafter).back
      exact hreaches.trans (ih back hback (hindex ▸ hlow)
        (Nat.lt_of_lt_of_le hless (Nat.le_of_lt_succ hlt)))

/-- The innermost vertex closes a component if its lowlink is its own index. -/
theorem closes (h : search.Sound graph root) {lowlink : Nat}
    (hpath : search.path = ⟨vertex, lowlink, []⟩ :: path)
    (hlow : search.standing vertex = .waiting lowlink) {above below : List Nat}
    (hstack : search.stack = above ++ vertex :: below) : search.Closes graph vertex above below := by
  have hfirst := h.frames _ (hpath ▸ List.mem_cons_self)
  have hindex := index_of_waiting hlow
  have hwaits {other : Nat} (hmem : other ∈ above ++ [vertex]) :
      other ∈ search.stack ∧ search.index vertex ≤ search.index other := by
    rcases List.mem_append.1 hmem with hmem | hmem
    · exact ⟨hstack ▸ List.mem_append_left _ hmem,
        Nat.le_of_lt ((h.toBooked.split hstack).1 other hmem)⟩
    · rw [List.mem_singleton.1 hmem]
      exact ⟨hfirst.waits, Nat.le_refl _⟩
  refine ⟨hstack, fun other hmem => hfirst.reaches other (hwaits hmem).1 (hwaits hmem).2,
    fun other hmem => h.reaches_back hpath hindex _ other (hwaits hmem).1 (hwaits hmem).2
      (Nat.lt_succ_self _), fun member hmem other hnext hother => ?_⟩
  have hseen : search.Above lowlink other := by
    rcases List.mem_append.1 hmem with hmem | hmem
    · exact (h.under_innermost hpath (hstack ▸ List.mem_append_left _ hmem)
        ((h.toBooked.split hstack).1 member hmem)).seen other hnext
    · obtain rfl := List.mem_singleton.1 hmem
      obtain ⟨seen, hseen, hall⟩ := hfirst.seen
      rw [List.append_nil] at hseen
      exact hall other (hseen ▸ hnext)
  cases hstanding : search.standing other with
  | unmet => exact absurd hstanding hseen.met
  | waiting index =>
    have hstays := (h.waits other).2 ⟨index, hstanding⟩
    exact .inl (h.toBooked.mem_of_le hstack hstays (hindex ▸ hseen.low hstays))
  | grouped => exact .inr ((h.grouped other).2 ⟨hother, hstanding⟩)

end Sound

/-- A component that was closed joins those found before. -/
theorem Closes.parts {above below : List Nat} (h : search.Closes graph vertex above below)
    (hbooked : search.Booked graph) (hparts : Parts graph search.found) {members : List Nat}
    (hperm : members.Perm (above ++ [vertex])) : Parts graph (members :: search.found) := by
  have hwaits (other : Nat) (hmem : other ∈ members) : other ∈ search.stack := by
    rw [h.stack]
    exact List.append_cons above vertex below ▸ List.mem_append_left _ (hperm.mem_iff.1 hmem)
  have hnodup : (above ++ [vertex]).Nodup := by
    have hsorted := hbooked.sorted
    rw [h.stack, List.append_cons] at hsorted
    exact (List.pairwise_append.1 hsorted).1.imp fun hlt heq => absurd hlt (by rw [heq]; exact Nat.lt_irrefl _)
  refine ⟨?_, fun member hmem other hnext hother => ?_, fun group hmem => ?_,
    fun group hmem one hone other hother => ?_, List.pairwise_cons.2 ⟨fun group hmem one hone other hother
    hreaches => ?_, hparts.apart⟩⟩
  · rw [List.flatten_cons]
    exact (hperm.nodup_iff.2 hnodup).append hparts.nodup
      fun other hmem => hbooked.not_found (hwaits other hmem)
  · rw [List.flatten_cons] at hmem ⊢
    rcases List.mem_append.1 hmem with hmem | hmem
    · rcases h.next member (hperm.mem_iff.1 hmem) other hnext hother with hin | hin
      · exact List.mem_append_left _ (hperm.mem_iff.2 hin)
      · exact List.mem_append_right _ hin
    · exact List.mem_append_right _ (hparts.closed member hmem other hnext hother)
  · rcases List.mem_cons.1 hmem with rfl | hmem
    · rintro rfl
      exact absurd hperm.symm.eq_nil (by simp)
    · exact hparts.nonempty group hmem
  · rcases List.mem_cons.1 hmem with rfl | hmem
    · exact (h.back one (hperm.mem_iff.1 hone)).trans (h.forth other (hperm.mem_iff.1 hother))
    · exact hparts.joined group hmem one hone other hother
  · have hin := hparts.of_reaches (List.mem_flatten_of_mem hmem hother) hreaches
      (hbooked.lt_order (hwaits one hone))
    exact hbooked.not_found (hwaits one hone) hin

/-- A component is popped from the stack. -/
theorem group_eq (hmem : vertex ∈ search.stack) : ∃ above below,
    search.stack = above ++ vertex :: below ∧
      (search.group vertex).stack = below ∧ (search.group vertex).path = search.path ∧
      (search.group vertex).found = sortBy search.exit (above ++ [vertex]) :: search.found ∧
      (search.group vertex).standings.size = search.standings.size ∧
      (search.group vertex).entered = search.entered ∧
      ∀ other, (search.group vertex).standing other =
        if other ∈ above ++ [vertex] then .grouped else search.standing other := by
  obtain ⟨above, below, hstack, hpop⟩ := popTo_eq hmem
  unfold group
  rw [hpop]
  exact ⟨above, below, hstack, rfl, rfl, rfl, (standings_group _ _ vertex).1, rfl,
    fun other => (standings_group _ _ other).2⟩

/-- How a search goes on after a component was popped from its stack. -/
structure Pops (graph : Graph) (search after : Search) (vertex : Nat) (above below : List Nat) : Prop where
  closes : search.Closes graph vertex above below
  stack : after.stack = below
  found : ∃ members, members.Perm (above ++ [vertex]) ∧ after.found = members :: search.found
  size : after.standings.size = search.standings.size
  entered : after.entered = search.entered
  standing : ∀ other, after.standing other =
    if other ∈ above ++ [vertex] then .grouped else search.standing other

namespace Pops

variable {after : Search} {above below : List Nat}

theorem waits (h : search.Pops graph after vertex above below) (hmem : other ∈ after.stack) :
    other ∈ search.stack := by
  rw [h.closes.stack]
  exact List.mem_append_right _ (List.mem_cons_of_mem _ (h.stack ▸ hmem))

theorem index (h : search.Pops graph after vertex above below) (hbooked : search.Booked graph)
    (hmem : other ∈ after.stack) : after.index other = search.index other := by
  have hnot : other ∉ above ++ [vertex] := fun hin =>
    (hbooked.split h.closes.stack).2.2 other hin (h.stack ▸ hmem)
  unfold Search.index
  rw [h.standing, if_neg hnot]

theorem mem_of_lt (h : search.Pops graph after vertex above below) (hbooked : search.Booked graph)
    (hmem : other ∈ search.stack) (hlt : search.index other < search.index vertex) :
    other ∈ after.stack :=
  h.stack ▸ hbooked.mem_of_lt h.closes.stack hmem hlt

theorem stays_above (h : search.Pops graph after vertex above below) (hbooked : search.Booked graph) {low : Nat}
    (habove : search.Above low other) : after.Above low other := by
  refine ⟨?_, fun hmem => ?_⟩
  · rw [h.standing]
    split
    · exact Standing.noConfusion
    · exact habove.met
  · rw [h.index hbooked hmem]
    exact habove.low (h.waits hmem)

theorem flatten (h : search.Pops graph after vertex above below) (other : Nat) :
    other ∈ after.found.flatten ↔ other ∈ above ++ [vertex] ∨ other ∈ search.found.flatten := by
  obtain ⟨members, hperm, hfound⟩ := h.found
  rw [hfound, List.flatten_cons, List.mem_append, hperm.mem_iff]

/-- What waited or was found does so still. -/
theorem whole (h : search.Pops graph after vertex above below) (other : Nat) :
    other ∈ after.stack ++ after.found.flatten ↔ other ∈ search.stack ++ search.found.flatten := by
  rw [List.mem_append, List.mem_append, h.flatten, h.stack, h.closes.stack,
    List.append_cons above vertex below, @List.mem_append _ other (above ++ [vertex]) below]
  tauto

theorem booked (h : search.Pops graph after vertex above below) (hbooked : search.Booked graph) :
    after.Booked graph := by
  obtain ⟨-, -, hapart⟩ := hbooked.split h.closes.stack
  refine ⟨h.size.trans hbooked.standings, fun other => ?_, fun other => ?_, ?_, fun other hmem => ?_⟩
  · rw [h.standing, h.stack]
    by_cases hin : other ∈ above ++ [vertex]
    · rw [if_pos hin]
      exact ⟨fun hmem => absurd hmem (hapart other hin), fun ⟨_, hwaits⟩ => nomatch hwaits⟩
    · rw [if_neg hin, ← hbooked.waits, h.closes.stack, List.append_cons above vertex below, List.mem_append]
      exact (or_iff_right hin).symm
  · rw [h.flatten, h.standing, hbooked.grouped]
    by_cases hin : other ∈ above ++ [vertex]
    · have hwaits : other ∈ search.stack := by
        rw [h.closes.stack, List.append_cons above vertex below]
        exact List.mem_append_left _ hin
      rw [if_pos hin]
      exact ⟨fun _ => ⟨hbooked.lt_order hwaits, rfl⟩, fun _ => .inl hin⟩
    · rw [if_neg hin]
      exact or_iff_right hin
  · have hsorted := hbooked.sorted
    rw [h.closes.stack, List.append_cons above vertex below, ← h.stack] at hsorted
    refine (List.pairwise_append.1 hsorted).2.1.imp_of_mem fun hmem hmem' hlt => ?_
    rwa [h.index hbooked hmem, h.index hbooked hmem']
  · rw [h.index hbooked hmem, h.entered]
    exact hbooked.entered other (h.waits hmem)

/-- A vertex of the path that was entered before the component was stays sound. -/
theorem frame_sound (h : search.Pops graph after vertex above below) (hbooked : search.Booked graph)
    (hframe : frame.Sound graph search) (hlt : search.index frame.vertex < search.index vertex) :
    frame.Sound graph after := by
  have hwaits := h.mem_of_lt hbooked hframe.waits hlt
  obtain ⟨back, hback, hlow, hreaches⟩ := hframe.back
  obtain ⟨seen, hseen, hall⟩ := hframe.seen
  have hwaits' := h.mem_of_lt hbooked hback (Nat.lt_of_le_of_lt (hlow ▸ hframe.low) hlt)
  refine ⟨hwaits, ?_, ⟨back, hwaits', (h.index hbooked hwaits').trans hlow, hreaches⟩,
    ⟨seen, hseen, fun other hmem => h.stays_above hbooked (hall other hmem)⟩, fun other hmem hle => ?_⟩
  · rw [h.index hbooked hwaits]
    exact hframe.low
  · rw [h.index hbooked hwaits, h.index hbooked hmem] at hle
    exact hframe.reaches other (h.waits hmem) hle

/-- What is under a vertex of the path stays so. -/
theorem under (h : search.Pops graph after vertex above below) (hbooked : search.Booked graph)
    (hpath : ∀ frame ∈ path, frame.vertex ∈ after.stack) (hmem : other ∈ after.stack)
    (hunder : search.Under graph path frame other) : after.Under graph path frame other := by
  have hindex := h.index hbooked hmem
  have hlt := (hbooked.split h.closes.stack).2.1 other (h.stack ▸ hmem)
  obtain ⟨back, hback, hle, hless, hreaches⟩ := hunder.back
  have hwaits := h.mem_of_lt hbooked hback (Nat.lt_trans hless hlt)
  refine ⟨hunder.mem, ?_, fun found hfound hafter => ?_, ⟨back, hwaits, ?_, ?_, hreaches⟩,
    fun found hfound => h.stays_above hbooked (hunder.seen found hfound)⟩
  · rw [hindex, h.index hbooked (hpath frame hunder.mem)]
    exact hunder.after
  · rw [hindex, h.index hbooked (hpath found hfound)] at hafter
    rw [h.index hbooked (hpath found hfound), h.index hbooked (hpath frame hunder.mem)]
    exact hunder.innermost found hfound hafter
  · rwa [h.index hbooked hwaits]
  · rwa [h.index hbooked hwaits, hindex]

end Pops

namespace Sound

/-- The innermost vertex is left and closes a component. -/
theorem group (h : search.Sound graph root) {lowlink : Nat}
    (hpath : search.path = ⟨vertex, lowlink, []⟩ :: path)
    (hlow : search.standing vertex = .waiting lowlink) (exits : Array Nat) (left : Nat) :
    Sound graph root
      (Search.group { search with exits, left, path := lower lowlink path } vertex) := by
  have hbooked := h.toBooked
  have hfirst := h.frames _ (hpath ▸ List.mem_cons_self)
  have hindex := index_of_waiting hlow
  have hnested := h.nested
  rw [hpath] at hnested
  obtain ⟨hbefore, hnested⟩ := List.pairwise_cons.1 hnested
  have hframes (frame : Frame) (hmem : frame ∈ path) : frame.Sound graph search :=
    h.frames frame (hpath ▸ List.mem_cons_of_mem _ hmem)
  -- The vertices of the path lie lower already.
  have hlower : lower lowlink path = path := by
    cases path with
    | nil => rfl
    | cons parent outer =>
      have hle := Nat.le_of_lt (Nat.lt_of_le_of_lt (hframes parent List.mem_cons_self).low
        (hbefore parent List.mem_cons_self))
      change { parent with lowlink := min parent.lowlink lowlink } :: outer = parent :: outer
      rw [Nat.min_eq_left (hindex ▸ hle)]
  obtain ⟨above, below, hstack, hrest, hpathAfter, hfound, hsize, hentered, hstanding⟩ :=
    @group_eq { search with exits, left, path := lower lowlink path } vertex hfirst.waits
  generalize Search.group { search with exits, left, path := lower lowlink path } vertex = after at *
  have hpops : search.Pops graph after vertex above below :=
    ⟨h.closes hpath hlow hstack, hrest, ⟨_, perm_sortBy _ _, hfound⟩, hsize, hentered, hstanding⟩
  rw [hlower] at hpathAfter
  have hpathWaits (frame : Frame) (hmem : frame ∈ path) : frame.vertex ∈ after.stack :=
    hpops.mem_of_lt hbooked (hframes frame hmem).waits (hbefore frame hmem)
  refine ⟨hpops.booked hbooked, ?_, fun frame hmem => ?_, fun other hmem hnot => ?_, fun other hmem => ?_,
    (hpops.whole root).2 h.start, ?_⟩
  · rw [hpathAfter]
    refine hnested.imp_of_mem fun hmem hmem' hlt => ?_
    rwa [hpops.index hbooked (hpathWaits _ hmem), hpops.index hbooked (hpathWaits _ hmem')]
  · rw [hpathAfter] at hmem
    exact hpops.frame_sound hbooked (hframes frame hmem) (hbefore frame hmem)
  · rw [hpathAfter] at hnot ⊢
    have hlt := (hbooked.split hstack).2.1 other (hrest ▸ hmem)
    obtain ⟨frame, hunder⟩ := h.under other (hpops.waits hmem) (by
      rw [hpath]
      exact fun hon => (List.mem_cons.1 hon).elim (fun heq => Nat.lt_irrefl _ (heq ▸ hlt)) hnot)
    have hmemFrame := hunder.mem
    rw [hpath] at hmemFrame
    rcases List.mem_cons.1 hmemFrame with rfl | hmemFrame
    · exact absurd hunder.after (Nat.not_lt_of_lt hlt)
    · refine ⟨frame, hpops.under hbooked hpathWaits hmem
        (hunder.replace hmemFrame rfl (Nat.le_refl _) fun outer houter _ => ?_)⟩
      exact ⟨outer, hpath ▸ List.mem_cons_of_mem _ houter, rfl⟩
  · exact h.rooted other ((hpops.whole other).1 hmem)
  · rw [hfound]
    exact hpops.closes.parts hbooked h.parts (perm_sortBy _ _)

/-- Every step keeps the search sound. -/
theorem step (h : search.Sound graph root) : (search.step graph).Sound graph root := by
  unfold Search.step
  split
  · exact h
  · rename_i vertex lowlink path hpath
    unfold Search.leave
    dsimp only
    split
    · rename_i hlow
      exact h.group hpath hlow _ _
    · rename_i hback
      exact h.keep hpath hback _ _
  · rename_i vertex lowlink other rest path hpath
    have hfirst := h.frames _ (hpath ▸ List.mem_cons_self)
    split
    · rename_i hunmet
      exact h.enter hpath hunmet
    · rename_i index hwaits
      have hindex := index_of_waiting hwaits
      refine h.look hpath (Nat.min_le_left _ _) ⟨?_, fun _ => hindex.symm ▸ Nat.min_le_right _ _⟩ ?_
      · rw [hwaits]
        exact Standing.noConfusion
      · rcases Nat.le_total lowlink index with hle | hle
        · rw [Nat.min_eq_left hle]
          exact hfirst.back
        · rw [Nat.min_eq_right hle]
          exact ⟨other, (h.waits other).2 ⟨index, hwaits⟩, hindex, .single (h.next_of_rest hpath)⟩
    · rename_i hgrouped
      refine h.look hpath (Nat.le_refl _) ⟨?_, fun hmem => ?_⟩ hfirst.back
      · rw [hgrouped]
        exact Standing.noConfusion
      · rw [h.standing_of_mem hmem] at hgrouped
        cases hgrouped

/-- So does a whole run. -/
theorem run (h : search.Sound graph root) (fuel : Nat) : (search.run graph fuel).Sound graph root := by
  induction fuel generalizing search with
  | zero => exact h
  | succ fuel ih =>
    unfold Search.run
    split
    · exact h
    · exact ih h.step

end Sound

/-! Each step looks at one successor, or leaves one vertex. -/

/-- How many steps the frames of a path still ask for. -/
def pathDebt : List Frame → Nat
  | [] => 0
  | frame :: path => frame.rest.length + 1 + pathDebt path

/-- How many steps those of the first vertices ask for that were not met. -/
def unmetDebt (graph : Graph) (standing : Nat → Standing) : Nat → Nat
  | 0 => 0
  | vertex + 1 => unmetDebt graph standing vertex +
    if standing vertex = .unmet then (graph.next vertex).length + 1 else 0

/-- How many steps a search has still to do. -/
def debt (graph : Graph) (search : Search) : Nat :=
  pathDebt search.path + unmetDebt graph search.standing graph.order

theorem pathDebt_lower (lowlink : Nat) (path : List Frame) :
    pathDebt (lower lowlink path) = pathDebt path := by
  cases path <;> rfl

theorem unmetDebt_congr {standing standing' : Nat → Standing}
    (h : ∀ vertex, standing' vertex = .unmet ↔ standing vertex = .unmet) (count : Nat) :
    unmetDebt graph standing' count = unmetDebt graph standing count := by
  induction count with
  | zero => rfl
  | succ count ih =>
    unfold unmetDebt
    rw [ih]
    exact congrArg _ (if_congr (h count) rfl rfl)

variable (graph) in
/-- Entering a vertex pays for it. -/
theorem unmetDebt_enter (hunmet : search.standing other = .unmet)
    (path : List Frame) (count : Nat) :
    unmetDebt graph (search.enter graph other path).standing count +
      (if other < count then (graph.next other).length + 1 else 0) =
        unmetDebt graph search.standing count := by
  have hsize := Booked.lt_size_of_ne_grouped (by rw [hunmet]; exact Standing.noConfusion)
  induction count with
  | zero => rfl
  | succ count ih =>
    unfold unmetDebt
    rw [← ih, standing_enter hsize]
    by_cases hsame : count = other
    · subst hsame
      rw [if_pos (Nat.lt_succ_self _), if_neg (Nat.lt_irrefl _), if_pos rfl, if_pos hunmet,
        if_neg Standing.noConfusion]
    · have hlt : other < count + 1 ↔ other < count := by omega
      rw [if_neg hsame, if_congr hlt rfl rfl]
      omega

theorem debt_enter (hbooked : search.Booked graph) (hunmet : search.standing other = .unmet)
    (path : List Frame) : (search.enter graph other path).debt graph =
      pathDebt path + unmetDebt graph search.standing graph.order := by
  have hsize := Booked.lt_size_of_ne_grouped (by rw [hunmet]; exact Standing.noConfusion)
  have hpaid := unmetDebt_enter graph hunmet path graph.order
  rw [if_pos (hbooked.standings ▸ hsize)] at hpaid
  unfold debt
  rw [← hpaid]
  change (graph.next other).length + 1 + pathDebt path + _ = _
  omega

theorem Booked.debt_group (h : search.Booked graph) (hmem : vertex ∈ search.stack) :
    (search.group vertex).debt graph = search.debt graph := by
  obtain ⟨above, below, hstack, -, hpath, -, -, -, hstanding⟩ := group_eq hmem
  unfold debt
  rw [hpath, unmetDebt_congr fun found => ?_]
  rw [hstanding]
  split
  · rename_i hpopped
    have hwaits : found ∈ search.stack := by
      rw [hstack, List.append_cons]
      exact List.mem_append_left _ hpopped
    rw [h.standing_of_mem hwaits]
    exact ⟨Standing.noConfusion, Standing.noConfusion⟩
  · exact Iff.rfl

/-- Every step brings the end nearer. -/
theorem Sound.debt_step (h : search.Sound graph root) (hpath : search.path ≠ []) :
    (search.step graph).debt graph + 1 = search.debt graph := by
  unfold Search.step
  split
  · rename_i hnil
    exact absurd hnil hpath
  · rename_i vertex lowlink path hcons
    have hleft : pathDebt (lower lowlink path) + unmetDebt graph search.standing graph.order + 1 =
        search.debt graph := by
      unfold debt
      rw [pathDebt_lower, hcons]
      change _ = 0 + 1 + pathDebt path + _
      omega
    unfold Search.leave
    dsimp only
    split
    · have hwaits : vertex ∈ search.stack := (h.frames _ (hcons ▸ List.mem_cons_self)).waits
      rw [(h.toBooked.onPath (search.exits.setIfInBounds vertex search.left) (search.left + 1)
        (lower lowlink path)).debt_group hwaits]
      exact hleft
    · exact hleft
  · rename_i vertex lowlink other rest path hcons
    have hlooked (lowlink' : Nat) : pathDebt (⟨vertex, lowlink', rest⟩ :: path) +
        unmetDebt graph search.standing graph.order + 1 = search.debt graph := by
      unfold debt
      rw [hcons]
      change rest.length + 1 + pathDebt path + _ + 1 = rest.length + 1 + 1 + pathDebt path + _
      omega
    split
    · rename_i hunmet
      rw [debt_enter h.toBooked hunmet]
      exact hlooked lowlink
    · exact hlooked _
    · exact hlooked _

/-- A run that may do so many steps comes to its end. -/
theorem Sound.run_ends (h : search.Sound graph root) {fuel : Nat} (hfuel : search.debt graph ≤ fuel) :
    (search.run graph fuel).path = [] := by
  induction fuel generalizing search with
  | zero =>
    unfold Search.run
    cases hpath : search.path with
    | nil => rfl
    | cons frame path =>
      have hdebt := h.debt_step (hpath ▸ List.cons_ne_nil frame path)
      omega
  | succ fuel ih =>
    unfold Search.run
    split
    · rename_i hempty
      exact List.isEmpty_iff.1 hempty
    · rename_i hopen
      have hdebt := h.debt_step fun hnil => hopen (List.isEmpty_iff.2 hnil)
      exact ih h.step (by omega)

theorem standing_blank (graph : Graph) (vertex : Nat) :
    (blank graph).standing vertex = if vertex < graph.order then .unmet else .grouped := by
  unfold standing blank
  rw [Array.getElem?_replicate]
  split <;> rfl

theorem booked_blank (graph : Graph) : (blank graph).Booked graph where
  standings := Array.size_replicate
  waits vertex := by
    rw [standing_blank]
    refine ⟨fun hmem => (nomatch hmem), fun ⟨index, hindex⟩ => ?_⟩
    split at hindex <;> cases hindex
  grouped vertex := by
    rw [standing_blank]
    refine ⟨fun hmem => (nomatch hmem), fun ⟨hlt, hgrouped⟩ => ?_⟩
    rw [if_pos hlt] at hgrouped
    cases hgrouped
  sorted := .nil
  entered _ hmem := nomatch hmem

/-- A search starts when its root is entered. -/
theorem sound_start (hroot : root < graph.order) :
    ((blank graph).enter graph root []).Sound graph root := by
  have hunmet : (blank graph).standing root = .unmet := (standing_blank graph root).trans (if_pos hroot)
  have hindex : ((blank graph).enter graph root []).index root = 0 := Booked.index_enter_self hunmet
  refine ⟨(booked_blank graph).enter hunmet, List.pairwise_singleton _ _, fun frame hmem => ?_,
    fun other hmem hnot => absurd hmem hnot, fun other hmem => ?_, List.mem_cons_self,
    ⟨.nil, (fun _ hmem => nomatch hmem), (fun _ hmem => nomatch hmem), (fun _ hmem => nomatch hmem),
      .nil⟩⟩
  · obtain rfl := List.mem_singleton.1 hmem
    refine ⟨List.mem_cons_self, Nat.le_of_eq hindex.symm, ⟨root, List.mem_cons_self, hindex, .refl⟩,
      ⟨[], rfl, fun _ hmem => nomatch hmem⟩, fun other hother _ => ?_⟩
    obtain rfl := List.mem_singleton.1 hother
    exact .refl
  · obtain rfl := List.mem_singleton.1 hmem
    exact .refl

theorem unmetDebt_blank (graph : Graph) {count : Nat} (hcount : count ≤ graph.order) :
    unmetDebt graph (blank graph).standing count = graph.extentUpTo count := by
  induction count with
  | zero => rfl
  | succ count ih =>
    unfold unmetDebt extentUpTo
    rw [ih (Nat.le_of_succ_le hcount), standing_blank, if_pos (Nat.lt_of_succ_le hcount), if_pos rfl]
    rfl

theorem debt_start (hroot : root < graph.order) :
    ((blank graph).enter graph root []).debt graph = graph.extent := by
  have hunmet : (blank graph).standing root = .unmet := (standing_blank graph root).trans (if_pos hroot)
  rw [debt_enter (booked_blank graph) hunmet, unmetDebt_blank graph (Nat.le_refl _)]
  exact Nat.zero_add _

end Search

/-- A search ends, whatever the graph. -/
theorem searchFrom_ends (graph : Graph) (root : Nat) : (graph.searchFrom root).path = [] := by
  unfold searchFrom
  split
  · rename_i hroot
    exact (Search.sound_start hroot).run_ends (Nat.le_of_eq (Search.debt_start hroot))
  · rfl

theorem searchFrom_sound (hroot : root < graph.order) : (graph.searchFrom root).Sound graph root := by
  unfold searchFrom
  rw [if_pos hroot]
  exact (Search.sound_start hroot).run _

/-- In the end nothing waits. -/
theorem searchFrom_stack (hroot : root < graph.order) : (graph.searchFrom root).stack = [] := by
  refine List.eq_nil_iff_forall_not_mem.2 fun vertex hmem => ?_
  have hends := searchFrom_ends graph root
  obtain ⟨frame, hunder⟩ := (searchFrom_sound hroot).under vertex hmem (by rw [hends]; exact List.not_mem_nil)
  exact absurd hunder.mem (by rw [hends]; exact List.not_mem_nil)

theorem components_of_le (hroot : graph.order ≤ root) : graph.components root = [] := by
  unfold components searchFrom
  rw [if_neg (Nat.not_lt.2 hroot)]
  rfl

/-- The components of what can be reached from a root. -/
structure Components (graph : Graph) (root : Nat) (groups : List (List Nat)) : Prop where
  nodup : groups.flatten.Nodup
  start : root < graph.order → root ∈ groups.flatten
  inside : ∀ vertex ∈ groups.flatten, vertex < graph.order
  next : ∀ vertex ∈ groups.flatten, ∀ other ∈ graph.next vertex, other < graph.order →
    other ∈ groups.flatten
  reached : ∀ vertex ∈ groups.flatten, graph.Reaches root vertex
  nonempty : ∀ members ∈ groups, members ≠ []
  joined : ∀ members ∈ groups, ∀ vertex ∈ members, ∀ other ∈ members, graph.Reaches vertex other

theorem components_components (graph : Graph) (root : Nat) :
    Components graph root (graph.components root) := by
  rcases Nat.lt_or_ge root graph.order with hroot | hroot
  · have hsound := searchFrom_sound hroot
    have hstack := searchFrom_stack hroot
    have hperm : (graph.components root).flatten.Perm (graph.searchFrom root).found.flatten :=
      (List.reverse_perm _).flatten
    have hmem (vertex : Nat) (h : vertex ∈ (graph.components root).flatten) :
        vertex ∈ (graph.searchFrom root).found.flatten := hperm.mem_iff.1 h
    refine ⟨hperm.nodup_iff.2 hsound.parts.nodup, fun _ => hperm.mem_iff.2 ?_,
      fun vertex h => ((hsound.grouped vertex).1 (hmem vertex h)).1, fun vertex h other hnext hother =>
        hperm.mem_iff.2 (hsound.parts.closed vertex (hmem vertex h) other hnext hother),
      fun vertex h => hsound.rooted vertex (List.mem_append_right _ (hmem vertex h)),
      fun members h => hsound.parts.nonempty members (List.mem_reverse.1 h),
      fun members h => hsound.parts.joined members (List.mem_reverse.1 h)⟩
    have hstart := hsound.start
    rwa [hstack, List.nil_append] at hstart
  · rw [components_of_le hroot]
    exact ⟨.nil, fun hlt => absurd hlt (Nat.not_lt_of_le hroot), (fun _ hmem => nomatch hmem),
      (fun _ hmem => nomatch hmem), (fun _ hmem => nomatch hmem), (fun _ hmem => nomatch hmem),
      (fun _ hmem => nomatch hmem)⟩

/-- No vertex of the second group reaches one of the first. -/
def Apart (graph : Graph) (first second : List Nat) : Prop :=
  ∀ vertex ∈ first, ∀ other ∈ second, ¬ graph.Reaches other vertex

/-- No component leads to a later one. -/
theorem components_apart (graph : Graph) (root : Nat) :
    (graph.components root).Pairwise fun group later => graph.Apart later group := by
  rcases Nat.lt_or_ge root graph.order with hroot | hroot
  · exact List.pairwise_reverse.2 (searchFrom_sound hroot).parts.apart
  · rw [components_of_le hroot]
    exact .nil

end

end Graph

end ModuleLoader
