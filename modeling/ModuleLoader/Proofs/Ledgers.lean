import ModuleLoader.Proofs.Closures
/-!
The books of a load. Every entry that is held back waits for nodes that were not delivered, as many as
its counter says at least. So once all nodes seen have been delivered, nothing is held back any more.
-/

namespace ModuleLoader
set_option autoImplicit false

namespace Holdback

section
variable {blocked : List (Node × List Node)} {blocker node : Node}

theorem mem_keys_block {other : Node} :
    other ∈ (block blocked blocker node).map Prod.fst ↔
      other ∈ blocked.map Prod.fst ∨ other = blocker := by
  induction blocked with
  | nil => simp [block]
  | cons first rest ih =>
    obtain ⟨key, nodes⟩ := first
    unfold block
    split
    · rename_i hkey
      subst hkey
      simp only [List.map_cons, List.mem_cons]
      refine ⟨.inl, fun h => h.elim id .inl⟩
    · simp only [List.map_cons, List.mem_cons, ih, or_assoc]

theorem nodup_keys_block (h : (blocked.map Prod.fst).Nodup) :
    ((block blocked blocker node).map Prod.fst).Nodup := by
  induction blocked with
  | nil => simp [block]
  | cons first rest ih =>
    obtain ⟨key, nodes⟩ := first
    obtain ⟨hfirst, hrest⟩ := List.nodup_cons.1 h
    unfold block
    split
    · exact h
    · rename_i hkey
      refine List.nodup_cons.2 ⟨fun hmem => ?_, ih hrest⟩
      exact (mem_keys_block.1 hmem).elim hfirst hkey

theorem count_block (other : Node) :
    ((block blocked blocker node).flatMap Prod.snd).count other =
      (blocked.flatMap Prod.snd).count other + if node = other then 1 else 0 := by
  induction blocked with
  | nil => simp [block, List.count_singleton]
  | cons first rest ih =>
    obtain ⟨key, nodes⟩ := first
    unfold block
    split
    · simp only [List.flatMap_cons, List.count_append, List.count_singleton, beq_iff_eq]
      omega
    · simp only [List.flatMap_cons, List.count_append, ih]
      omega

end

/-- A node that waits for several others is noted once with each of them. -/
theorem blockAll_spec (node : Node) : ∀ (blockers : List Node) (blocked : List (Node × List Node)),
    (blocked.map Prod.fst).Nodup →
      let after := blockers.foldl (fun blocked blocker => block blocked blocker node) blocked
      (after.map Prod.fst).Nodup ∧
        (∀ other ∈ after.map Prod.fst, other ∈ blocked.map Prod.fst ∨ other ∈ blockers) ∧
          ∀ other, (after.flatMap Prod.snd).count other =
            (blocked.flatMap Prod.snd).count other + if node = other then blockers.length else 0
  | [], blocked, h => ⟨h, fun _ => .inl, fun other => by simp⟩
  | blocker :: rest, blocked, h => by
    obtain ⟨hnodup, hkeys, hcount⟩ :=
      blockAll_spec node rest (block blocked blocker node) (nodup_keys_block h)
    refine ⟨hnodup, fun other hmem => ?_, fun other => ?_⟩
    · rcases hkeys other hmem with hmem | hmem
      · refine (mem_keys_block.1 hmem).imp_right ?_
        rintro rfl
        exact List.mem_cons_self
      · exact .inr (List.mem_cons_of_mem _ hmem)
    · refine (hcount other).trans ?_
      rw [count_block]
      simp only [List.length_cons]
      split <;> omega

/-- What blocks a node is all that it depends on and that was not delivered, each once. -/
theorem blockers_spec (delivered nodes : List Node) : (blockers delivered nodes).Nodup ∧
    ∀ node, node ∈ blockers delivered nodes ↔ node ∈ nodes ∧ node ∉ delivered := by
  have hall (nodes : List Node) : ∀ found : List Node, found.Nodup →
      let all := nodes.foldl (fun found node =>
        if delivered.contains node || found.contains node then found else found ++ [node]) found
      all.Nodup ∧ ∀ node, node ∈ all ↔ node ∈ found ∨ node ∈ nodes ∧ node ∉ delivered := by
    induction nodes with
    | nil => exact fun found h => ⟨h, fun node => by simp⟩
    | cons first rest ih =>
      intro found hfound
      dsimp only [List.foldl_cons]
      split
      · rename_i hknown
        obtain ⟨hnodup, hmem⟩ := ih found hfound
        refine ⟨hnodup, fun node => (hmem node).trans ?_⟩
        simp only [Bool.or_eq_true, List.contains_iff_mem] at hknown
        by_cases hnode : node = first
        · subst hnode
          simp only [List.mem_cons, true_or, true_and]
          exact ⟨fun h => h.imp_right And.right, fun h => h.elim .inl fun hnot =>
            .inl (hknown.resolve_left hnot)⟩
        · simp [hnode]
      · rename_i hfresh
        simp only [Bool.or_eq_true, List.contains_iff_mem, not_or] at hfresh
        have hnext : (found ++ [first]).Nodup := by
          refine List.nodup_append.2 ⟨hfound, List.nodup_cons.2 ⟨List.not_mem_nil, List.nodup_nil⟩, ?_⟩
          rintro node hnode _ hsingle rfl
          exact hfresh.2 (List.mem_singleton.1 hsingle ▸ hnode)
        obtain ⟨hnodup, hmem⟩ := ih _ hnext
        refine ⟨hnodup, fun node => (hmem node).trans ?_⟩
        by_cases hnode : node = first
        · subst hnode
          simp [hfresh.1]
        · simp [hnode]
  obtain ⟨hnodup, hmem⟩ := hall nodes [] List.nodup_nil
  exact ⟨hnodup, fun node => (hmem node).trans (by simp)⟩

/-- One countdown takes one from the counter of the node, or gives its entry away. -/
theorem countDown_spec : ∀ {held : List Held} (node : Node), (held.map Held.node).Nodup →
    (∀ first ∈ held, 1 ≤ first.missing) →
      ((countDown held node).1.map Held.node).Sublist (held.map Held.node) ∧
        (∀ left ∈ (countDown held node).1, 1 ≤ left.missing ∧ ∃ first ∈ held,
          first.node = left.node ∧
            left.missing + (if node = left.node then 1 else 0) = first.missing) ∧
          ∀ first ∈ held, first.node ∈ (countDown held node).1.map Held.node ∨
            ∃ entry, (countDown held node).2 = some (first.node, entry)
  | [], _, _, _ => by
    simp [countDown]
  | first :: rest, node, hnodup, hpositive => by
    obtain ⟨hfirst, hrest⟩ := List.nodup_cons.1 hnodup
    have hone := hpositive first List.mem_cons_self
    have hothers := fun other hmem => hpositive other (List.mem_cons_of_mem first hmem)
    have hother {other : Held} (hmem : other ∈ rest) (hnode : first.node = node) :
        node ≠ other.node := by
      rintro rfl
      exact hfirst (hnode ▸ List.mem_map_of_mem hmem)
    unfold countDown
    split
    · rename_i hnode
      split
      · refine ⟨List.sublist_cons_self _ _, fun left hmem => ⟨hothers left hmem, left,
          List.mem_cons_of_mem _ hmem, rfl, ?_⟩, fun other hmem => ?_⟩
        · rw [if_neg (hother hmem hnode), Nat.add_zero]
        · rcases List.mem_cons.1 hmem with rfl | hmem
          · exact .inr ⟨_, rfl⟩
          · exact .inl (List.mem_map_of_mem hmem)
      · rename_i hmany
        refine ⟨.refl _, fun left hmem => ?_, fun other hmem => .inl ?_⟩
        · rcases List.mem_cons.1 hmem with rfl | hmem
          · refine ⟨by dsimp only; omega, first, List.mem_cons_self, rfl, ?_⟩
            rw [if_pos hnode.symm]
            dsimp only
            omega
          · refine ⟨hothers left hmem, left, List.mem_cons_of_mem _ hmem, rfl, ?_⟩
            rw [if_neg (hother hmem hnode), Nat.add_zero]
        · rcases List.mem_cons.1 hmem with rfl | hmem
          · exact List.mem_cons_self
          · exact List.mem_cons_of_mem _ (List.mem_map_of_mem hmem)
    · rename_i hnode
      obtain ⟨hsub, hleft, hkept⟩ := countDown_spec node hrest hothers
      refine ⟨hsub.cons_cons _, fun left hmem => ?_, fun other hmem => ?_⟩
      · rcases List.mem_cons.1 hmem with rfl | hmem
        · refine ⟨hone, left, List.mem_cons_self, rfl, ?_⟩
          rw [if_neg (Ne.symm hnode), Nat.add_zero]
        · obtain ⟨hmissing, before, hbefore, hsame⟩ := hleft left hmem
          exact ⟨hmissing, before, List.mem_cons_of_mem _ hbefore, hsame⟩
      · rcases List.mem_cons.1 hmem with rfl | hmem
        · exact .inl List.mem_cons_self
        · exact (hkept other hmem).imp_left (List.mem_cons_of_mem _)

theorem countDownAll_spec : ∀ (nodes : List Node) {held : List Held}, (held.map Held.node).Nodup →
    (∀ first ∈ held, 1 ≤ first.missing) →
      ((countDownAll held nodes).1.map Held.node).Sublist (held.map Held.node) ∧
        (∀ left ∈ (countDownAll held nodes).1, 1 ≤ left.missing ∧ ∃ first ∈ held,
          first.node = left.node ∧ left.missing + nodes.count left.node = first.missing) ∧
          ∀ first ∈ held, first.node ∈ (countDownAll held nodes).1.map Held.node ∨
            first.node ∈ (countDownAll held nodes).2.map Prod.fst
  | [], _, _, hpositive =>
    ⟨.refl _, fun left hmem => ⟨hpositive left hmem, left, hmem, rfl, rfl⟩,
      fun _ hmem => .inl (List.mem_map_of_mem hmem)⟩
  | node :: nodes, held, hnodup, hpositive => by
    obtain ⟨hsub, hleft, hkept⟩ := countDown_spec node hnodup hpositive
    obtain ⟨hsub', hleft', hkept'⟩ := countDownAll_spec nodes (hnodup.sublist hsub)
      fun left hmem => (hleft left hmem).1
    refine ⟨hsub'.trans hsub, fun left hmem => ?_, fun first hmem => ?_⟩
    · obtain ⟨hmissing, middle, hmiddle, hnode, hcount⟩ := hleft' left hmem
      obtain ⟨-, first, hfirst, hnode', hcount'⟩ := hleft middle hmiddle
      refine ⟨hmissing, first, hfirst, hnode'.trans hnode, ?_⟩
      rw [hnode] at hcount'
      rw [List.count_cons]
      simp only [beq_iff_eq]
      omega
    · unfold countDownAll
      dsimp only
      rw [List.map_append, List.mem_append]
      rcases hkept first hmem with hmem | ⟨entry, hfound⟩
      · obtain ⟨middle, hmiddle, hnode⟩ := List.mem_map.1 hmem
        rw [← hnode]
        exact (hkept' middle hmiddle).imp_right .inr
      · rw [hfound]
        exact .inr (.inl List.mem_cons_self)

/-- The books are in order: no node is held back twice, and each one is named as often as its counter
says among the nodes that are blocked by something not delivered. -/
structure Balanced (holdback : Holdback) : Prop where
  nodup : (holdback.held.map Held.node).Nodup
  held : ∀ held ∈ holdback.held, held.node ∈ holdback.delivered
  missing : ∀ held ∈ holdback.held, 1 ≤ held.missing
  enough : ∀ held ∈ holdback.held,
    held.missing ≤ (holdback.blocked.flatMap Prod.snd).count held.node
  keys : (holdback.blocked.map Prod.fst).Nodup
  undelivered : ∀ blocker ∈ holdback.blocked.map Prod.fst, blocker ∉ holdback.delivered

theorem default_balanced : (default : Holdback).Balanced where
  nodup := List.nodup_nil
  held _ hmem := nomatch hmem
  missing _ hmem := nomatch hmem
  enough _ hmem := nomatch hmem
  keys := List.nodup_nil
  undelivered _ hmem := nomatch hmem

/-- Nothing is held back that nothing blocks. -/
theorem Balanced.held_eq_nil {holdback : Holdback} (h : holdback.Balanced)
    (hblocked : holdback.blocked = []) : holdback.held = [] := by
  refine List.eq_nil_iff_forall_not_mem.2 fun held hmem => ?_
  have hmissing := h.missing held hmem
  have henough := h.enough held hmem
  rw [hblocked, List.flatMap_nil, List.count_nil] at henough
  omega

/-- What is blocked by a node, and what is blocked by others. -/
theorem count_blockedBy (delivered : List Node) (held : List Held) (node other : Node) :
    ∀ {blocked : List (Node × List Node)}, (blocked.map Prod.fst).Nodup →
      (blocked.flatMap Prod.snd).count other =
        (blockedBy ⟨delivered, held, blocked⟩ node).count other +
          ((blocked.filter fun pair => pair.1 ≠ node).flatMap Prod.snd).count other
  | [], _ => by
    simp [blockedBy]
  | (key, nodes) :: rest, h => by
    obtain ⟨hkey, hrest⟩ := List.nodup_cons.1 h
    by_cases hsame : key = node
    · subst hsame
      have hothers : (rest.filter fun pair => pair.1 ≠ key) = rest := by
        refine List.filter_eq_self.2 fun pair hmem => ?_
        simp only [ne_eq, decide_eq_true_eq]
        intro heq
        exact hkey (List.mem_map.2 ⟨pair, hmem, heq⟩)
      rw [List.filter_cons_of_neg (by simp), hothers]
      simp [blockedBy]
    · have ih := count_blockedBy delivered held node other hrest
      rw [List.filter_cons_of_pos (by simpa using hsame), List.flatMap_cons, List.flatMap_cons,
        List.count_append, List.count_append, ih]
      have hfind : blockedBy ⟨delivered, held, (key, nodes) :: rest⟩ node =
          blockedBy ⟨delivered, held, rest⟩ node := by
        simp [blockedBy, hsame]
      rw [hfind]
      omega

/-- The books are in order but for a node that was delivered: what waits for it has yet to be counted. -/
structure Owing (holdback : Holdback) (node : Node) : Prop where
  nodup : (holdback.held.map Held.node).Nodup
  held : ∀ held ∈ holdback.held, held.node ∈ holdback.delivered
  missing : ∀ held ∈ holdback.held, 1 ≤ held.missing
  enough : ∀ held ∈ holdback.held,
    held.missing ≤ (holdback.blocked.flatMap Prod.snd).count held.node
  keys : (holdback.blocked.map Prod.fst).Nodup
  undelivered : ∀ blocker ∈ holdback.blocked.map Prod.fst, blocker ≠ node →
    blocker ∉ holdback.delivered

section
variable {holdback : Holdback} {node : Node} {delivery : Delivery}

theorem Balanced.owing (h : holdback.Balanced) (node : Node) :
    { holdback with delivered := node :: holdback.delivered }.Owing node where
  nodup := h.nodup
  held first hmem := List.mem_cons_of_mem _ (h.held first hmem)
  missing := h.missing
  enough := h.enough
  keys := h.keys
  undelivered blocker hmem hne hdelivered :=
    (List.mem_cons.1 hdelivered).elim hne (h.undelivered blocker hmem)

/-- The node itself is held back, by others that were not delivered. -/
theorem Owing.hold (h : holdback.Owing node) (hnode : node ∈ holdback.delivered)
    (hnew : node ∉ holdback.held.map Held.node) (entry : Entry) {blocking : List Node}
    (hpositive : 1 ≤ blocking.length) (hblocking : ∀ blocker ∈ blocking, blocker ∉ holdback.delivered) :
    Owing ⟨holdback.delivered, holdback.held ++ [⟨node, entry, blocking.length⟩],
      blocking.foldl (fun blocked blocker => block blocked blocker node) holdback.blocked⟩ node := by
  obtain ⟨hnodup, hkeys, hcount⟩ := blockAll_spec node blocking holdback.blocked h.keys
  have hmem {first : Held} (hmem : first ∈ holdback.held ++ [⟨node, entry, blocking.length⟩]) :
      first ∈ holdback.held ∨ first = ⟨node, entry, blocking.length⟩ :=
    (List.mem_append.1 hmem).imp_right List.mem_singleton.1
  refine ⟨?_, fun first hfirst => ?_, fun first hfirst => ?_, fun first hfirst => ?_, hnodup,
    fun blocker hkey hne => ?_⟩
  · rw [List.map_append]
    refine List.nodup_append.2 ⟨h.nodup, List.pairwise_singleton _ _, ?_⟩
    rintro other hother _ hsingle rfl
    obtain rfl := List.mem_singleton.1 hsingle
    exact hnew hother
  · rcases hmem hfirst with hold | rfl
    · exact h.held first hold
    · exact hnode
  · rcases hmem hfirst with hold | rfl
    · exact h.missing first hold
    · exact hpositive
  · rw [hcount]
    rcases hmem hfirst with hold | rfl
    · exact Nat.le_trans (h.enough first hold) (Nat.le_add_right _ _)
    · rw [if_pos rfl]
      exact Nat.le_add_left _ _
  · exact (hkeys blocker hkey).elim (fun hold => h.undelivered blocker hold hne) (hblocking blocker)

/-- The books are in order again once those are counted down that waited for the node. -/
theorem Owing.release (h : holdback.Owing node) :
    Balanced ⟨holdback.delivered, (countDownAll holdback.held (holdback.blockedBy node)).1,
      holdback.blocked.filter fun pair => pair.1 ≠ node⟩ ∧
      ∀ first ∈ holdback.held,
        first.node ∈ (countDownAll holdback.held (holdback.blockedBy node)).1.map Held.node ∨
          first.node ∈ (countDownAll holdback.held (holdback.blockedBy node)).2.map Prod.fst := by
  obtain ⟨hsub, hleft, hkept⟩ := countDownAll_spec (holdback.blockedBy node) h.nodup h.missing
  refine ⟨⟨h.nodup.sublist hsub, fun left hmem => ?_, fun left hmem => (hleft left hmem).1,
    fun left hmem => ?_, h.keys.sublist (List.filter_sublist.map _), fun blocker hmem => ?_⟩, hkept⟩
  · obtain ⟨-, first, hfirst, hnode, -⟩ := hleft left hmem
    exact hnode ▸ h.held first hfirst
  · obtain ⟨-, first, hfirst, hnode, hcount⟩ := hleft left hmem
    have henough := h.enough first hfirst
    have hblocked : (holdback.blocked.flatMap Prod.snd).count left.node =
        (holdback.blockedBy node).count left.node +
          ((holdback.blocked.filter fun pair => pair.1 ≠ node).flatMap Prod.snd).count left.node :=
      count_blockedBy holdback.delivered holdback.held node left.node h.keys
    rw [hnode, hblocked] at henough
    dsimp only
    omega
  · obtain ⟨pair, hpair, rfl⟩ := List.mem_map.1 hmem
    obtain ⟨hpair, hne⟩ := List.mem_filter.1 hpair
    exact h.undelivered _ (List.mem_map_of_mem hpair) (by simpa using hne)

/-- What a delivery comes to for the books: no node gets lost. It is held back still, or its entry may
enter. -/
structure Delivered (holdback : Holdback) (node : Node) (delivery : Delivery)
    (after : Holdback × List (Node × Entry)) : Prop where
  balanced : after.1.Balanced
  delivered : after.1.delivered = node :: holdback.delivered
  blocked : ∀ blocker ∈ after.1.blocked.map Prod.fst,
    blocker ∈ holdback.blocked.map Prod.fst ∨ blocker ∈ delivery.continuations
  kept : ∀ held ∈ holdback.held,
    held.node ∈ after.1.held.map Held.node ∨ held.node ∈ after.2.map Prod.fst
  taken : delivery.fromMemo = true ∨ node ∈ after.1.held.map Held.node ∨ node ∈ after.2.map Prod.fst

theorem deliver_delivered (delivery : Delivery) (h : holdback.Balanced) (hnew : node ∉ holdback.delivered) :
    Delivered holdback node delivery (holdback.deliver node delivery) := by
  have hfilter {blocked : List (Node × List Node)} {blocker : Node}
      (hmem : blocker ∈ (blocked.filter fun pair => pair.1 ≠ node).map Prod.fst) :
      blocker ∈ blocked.map Prod.fst :=
    (List.filter_sublist.map _).subset hmem
  have howing := h.owing node
  obtain ⟨hbalanced, hkept⟩ := howing.release
  unfold deliver
  by_cases hmemo : delivery.fromMemo = true
  · simp only [hmemo, if_true, List.foldl_nil, List.nil_append]
    exact ⟨hbalanced, rfl, fun _ hmem => .inl (hfilter hmem), hkept, .inl hmemo⟩
  · by_cases hnone : blockers (node :: holdback.delivered) delivery.continuations = []
    · simp only [hmemo, hnone, Bool.false_eq_true, if_false, if_true, List.foldl_nil, List.isEmpty_nil]
      refine ⟨hbalanced, rfl, fun _ hmem => .inl (hfilter hmem), fun held hmem => ?_, .inr (.inr ?_)⟩
      · exact (hkept held hmem).imp_right (List.mem_cons_of_mem _)
      · exact List.mem_cons_self
    · have hlast : node ∉ holdback.held.map Held.node := by
        intro hmem
        obtain ⟨first, hfirst, hnode⟩ := List.mem_map.1 hmem
        exact hnew (hnode ▸ h.held first hfirst)
      have hblocking {blocker : Node}
          (hmem : blocker ∈ blockers (node :: holdback.delivered) delivery.continuations) :=
        ((blockers_spec _ _).2 _).1 hmem
      obtain ⟨-, hkeys, -⟩ := blockAll_spec node
        (blockers (node :: holdback.delivered) delivery.continuations) holdback.blocked h.keys
      obtain ⟨hbalanced, hkept⟩ := (howing.hold List.mem_cons_self hlast delivery.entry
        (List.length_pos_iff.2 hnone) fun _ hmem => (hblocking hmem).2).release
      simp only [hmemo, hnone, Bool.false_eq_true, if_false, List.isEmpty_iff, List.nil_append]
      refine ⟨hbalanced, rfl, fun blocker hkey => ?_, fun first hfirst => ?_, .inr ?_⟩
      · exact (hkeys blocker (hfilter hkey)).imp_right fun hfresh => (hblocking hfresh).1
      · exact hkept first (List.mem_append_left _ hfirst)
      · exact hkept _ (List.mem_append_right _ List.mem_cons_self)

end

end Holdback

/-- The places of members, and the nodes that they are about. -/
def KeyLoad.places (members : List (Nat × KeyLoad)) : List (Nat × Node) :=
  members.map fun member => (member.1, member.2.node)

/-- A member that has its turn is no other one. -/
theorem KeyLoad.places_pluck {index : Nat} {work : KeyLoad} :
    ∀ {members : List (Nat × KeyLoad)}, ((places members).map Prod.fst).Nodup →
      (index, work) ∈ members →
        ((index, work.node) :: places (members.filter fun member => member.1 ≠ index)).Perm
          (places members)
  | first :: rest, hnodup, hmem => by
    obtain ⟨hfirst, hrest⟩ := List.nodup_cons.1 hnodup
    rcases List.mem_cons.1 hmem with rfl | hmem
    · have hothers : (rest.filter fun member => member.1 ≠ index) = rest := by
        refine List.filter_eq_self.2 fun member hmember => ?_
        simp only [ne_eq, decide_eq_true_eq]
        rintro rfl
        refine hfirst (List.mem_map.2 ⟨(member.1, member.2.node), ?_, rfl⟩)
        exact List.mem_map.2 ⟨member, hmember, rfl⟩
      rw [List.filter_cons_of_neg (by simp), hothers]
      exact .refl _
    · have hne : first.1 ≠ index := by
        rintro rfl
        refine hfirst (List.mem_map.2 ⟨(first.1, work.node), ?_, rfl⟩)
        exact List.mem_map.2 ⟨(first.1, work), hmem, rfl⟩
      rw [List.filter_cons_of_pos (by simpa using hne)]
      exact (List.Perm.swap _ _ _).trans ((places_pluck hrest hmem).cons _)

namespace ClosureLoad

/-- The nodes that wait, are in flight, or were delivered. -/
def accounted (load : ClosureLoad) (ahead : List Node) : List Node :=
  ahead ++ (KeyLoad.places load.members).map Prod.snd ++ load.holdback.delivered

/-- The books of a load are in order: each node seen waits, is in flight or was delivered. -/
structure Tallied (load : ClosureLoad) (ahead : List Node) : Prop where
  root : load.root ∈ load.seen
  balanced : load.holdback.Balanced
  blocked : ∀ blocker ∈ load.holdback.blocked.map Prod.fst, blocker ∈ load.seen
  indices : ((KeyLoad.places load.members).map Prod.fst).Nodup
  below : ∀ index ∈ (KeyLoad.places load.members).map Prod.fst, index < load.nextIndex
  nodup : (load.accounted ahead).Nodup
  seen : ∀ node, node ∈ load.accounted ahead ↔ node ∈ load.seen

section
variable {load : ClosureLoad} {ahead : List Node}

/-- A node that is in flight may as well be taken for one that waits. -/
theorem Tallied.pluck (h : load.Tallied ahead) {index : Nat} {node : Node}
    {members : List (Nat × KeyLoad)}
    (hperm : ((index, node) :: KeyLoad.places members).Perm (KeyLoad.places load.members)) :
    { load with members }.Tallied (node :: ahead) := by
  have hindices := (hperm.map Prod.fst).nodup_iff.2 h.indices
  have haccounted : ({ load with members }.accounted (node :: ahead)).Perm (load.accounted ahead) := by
    have hnodes := hperm.map Prod.snd
    unfold accounted
    refine List.Perm.append_right _ (.trans ?_ (hnodes.append_left ahead))
    exact List.perm_middle.symm
  refine ⟨h.root, h.balanced, h.blocked, (List.nodup_cons.1 hindices).2, fun other hmem => ?_,
    haccounted.nodup_iff.2 h.nodup, fun other => haccounted.mem_iff.trans (h.seen other)⟩
  exact h.below other ((hperm.map Prod.fst).subset (List.mem_cons_of_mem _ hmem))

theorem Tallied.perm (h : load.Tallied ahead) {members : List (Nat × KeyLoad)}
    (hperm : (KeyLoad.places members).Perm (KeyLoad.places load.members)) :
    { load with members }.Tallied ahead := by
  have haccounted : ({ load with members }.accounted ahead).Perm (load.accounted ahead) :=
    ((hperm.map Prod.snd).append_left ahead).append_right _
  exact ⟨h.root, h.balanced, h.blocked, (hperm.map Prod.fst).nodup_iff.2 h.indices,
    fun other hmem => h.below other ((hperm.map Prod.fst).subset hmem),
    haccounted.nodup_iff.2 h.nodup, fun other => haccounted.mem_iff.trans (h.seen other)⟩

/-- A node that waits goes into flight. -/
theorem Tallied.launch {node : Node} (h : load.Tallied (node :: ahead)) :
    { load with
      members := (load.nextIndex, ⟨node, none⟩) :: load.members
      nextIndex := load.nextIndex + 1 }.Tallied ahead := by
  have haccounted : ({ load with
      members := (load.nextIndex, ⟨node, none⟩) :: load.members
      nextIndex := load.nextIndex + 1 }.accounted ahead).Perm (load.accounted (node :: ahead)) :=
    List.Perm.append_right _ List.perm_middle
  refine ⟨h.root, h.balanced, h.blocked, List.nodup_cons.2 ⟨fun hmem => ?_, h.indices⟩,
    fun index hmem => ?_, haccounted.nodup_iff.2 h.nodup,
    fun other => haccounted.mem_iff.trans (h.seen other)⟩
  · exact Nat.lt_irrefl _ (h.below _ hmem)
  · rcases List.mem_cons.1 hmem with rfl | hmem
    · exact Nat.lt_succ_self _
    · exact Nat.lt_succ_of_lt (h.below index hmem)

/-- A node that is in hand was not delivered. -/
theorem Tallied.in_hand {node : Node} (h : load.Tallied (node :: ahead)) :
    node ∉ load.holdback.delivered := by
  have hnodup := h.nodup
  unfold accounted at hnodup
  rw [List.append_assoc] at hnodup
  exact fun hmem => (List.nodup_cons.1 hnodup).1
    (List.mem_append_right _ (List.mem_append_right _ hmem))

/-- A node that was in flight is delivered, and what it leads on to waits from now on. -/
theorem Tallied.deliver {node : Node} {delivery : Delivery} (h : load.Tallied (node :: ahead)) :
    { load with
      seen := (unseen load.seen delivery.continuations).2
      backlog := ahead ++ (unseen load.seen delivery.continuations).1
      holdback := (load.holdback.deliver node delivery).1 }.Tallied
        (ahead ++ (unseen load.seen delivery.continuations).1) := by
  have hdelivered := Holdback.deliver_delivered delivery h.balanced h.in_hand
  have haccounted : ({ load with
      seen := (unseen load.seen delivery.continuations).2
      backlog := ahead ++ (unseen load.seen delivery.continuations).1
      holdback := (load.holdback.deliver node delivery).1 }.accounted
        (ahead ++ (unseen load.seen delivery.continuations).1)).Perm
          ((unseen load.seen delivery.continuations).1 ++ load.accounted (node :: ahead)) := by
    unfold accounted
    dsimp only
    rw [hdelivered.delivered]
    refine List.perm_middle.trans (.trans (.cons _ ?_) List.perm_middle.symm)
    refine ((List.perm_append_comm.append_right _).append_right _).trans (.of_eq ?_)
    simp only [List.append_eq, List.append_assoc]
  refine ⟨mem_seen_unseen.2 (.inl h.root), hdelivered.balanced, fun blocker hmem => ?_, h.indices,
    h.below, haccounted.nodup_iff.2 ?_, fun other => haccounted.mem_iff.trans ?_⟩
  · exact (hdelivered.blocked blocker hmem).elim
      (fun hold => mem_seen_unseen.2 (.inl (h.blocked blocker hold))) mem_seen_of_mem
  · refine List.nodup_append.2 ⟨nodup_unseen _ _, h.nodup, ?_⟩
    rintro other hfresh _ hold rfl
    exact not_mem_of_mem_unseen hfresh ((h.seen other).1 hold)
  · rw [List.mem_append, h.seen, mem_seen_unseen]
    exact or_comm

/-- When nothing waits and nothing is in flight, all nodes seen were delivered, and nothing is held back
any more. -/
theorem Tallied.exhausted (h : load.Tallied ahead) (hahead : ahead = [])
    (hmembers : KeyLoad.places load.members = []) :
    (∀ node ∈ load.seen, node ∈ load.holdback.delivered) ∧ load.holdback.held = [] := by
  have hall : ∀ node ∈ load.seen, node ∈ load.holdback.delivered := by
    intro node hmem
    have haccounted := (h.seen node).2 hmem
    unfold accounted at haccounted
    rwa [hahead, hmembers] at haccounted
  refine ⟨hall, h.balanced.held_eq_nil (List.eq_nil_iff_forall_not_mem.2 fun pair hmem => ?_)⟩
  have hkey := List.mem_map_of_mem (f := Prod.fst) hmem
  exact h.balanced.undelivered _ hkey (hall _ (h.blocked _ hkey))

end

/-- Filling a load with nodes that wait keeps its books. If the limit stops it, some node is in
flight. -/
theorem fill_tallied : ∀ (nodes : List Node) (load : ClosureLoad) (host : Host),
    load.Tallied nodes → After host (load.fill nodes) fun next _ =>
      next.Tallied next.backlog ∧ next.holdback = load.holdback ∧ next.seen = load.seen ∧
        (∀ member ∈ next.members, member ∈ load.members ∨ member.2.load = none) ∧
          (next.members = [] → next.backlog = [])
  | [], _, _, h => ⟨⟨h.root, h.balanced, h.blocked, h.indices, h.below, h.nodup, h.seen⟩, rfl, rfl,
      fun _ => .inl, fun _ => rfl⟩
  | node :: rest, load, host, h => by
    unfold fill
    split
    · rw [after_bind]
      have hadded : After host (Act.changePool load.pool fun pool => pool.add load.nextIndex)
          fun _ _ => True := trivial
      refine hadded.mono fun _ after _ => ?_
      refine (fill_tallied rest _ after h.launch).mono fun next _ hnext => ?_
      obtain ⟨htally, hholdback, hseen, hmembers, hempty⟩ := hnext
      refine ⟨htally, hholdback, hseen, fun member hmem => ?_, hempty⟩
      rcases hmembers member hmem with hmem | hnone
      · rcases List.mem_cons.1 hmem with rfl | hmem
        · exact .inr rfl
        · exact .inl hmem
      · exact .inr hnone
    · rename_i hlimit
      refine ⟨⟨h.root, h.balanced, h.blocked, h.indices, h.below, h.nodup, h.seen⟩, rfl, rfl,
        fun _ => .inl, fun hmembers => ?_⟩
      have hmembers : load.members = [] := hmembers
      simp only [hmembers, List.length_nil, Bool.or_eq_true, decide_eq_true_eq] at hlimit
      omega

theorem start_tallied (root : Node) (host : Host) :
    After host (start root) fun load _ => load.Tallied load.backlog := by
  have hone : (List.Nodup [root]) := List.nodup_cons.2 ⟨List.not_mem_nil, List.nodup_nil⟩
  have hnone (other : Node) (hmem : other ∈ ([] : List Node)) : other ∈ [root] :=
    absurd hmem List.not_mem_nil
  have hbelow (index : Nat) (hmem : index ∈ ([] : List Nat)) : index < 0 :=
    absurd hmem List.not_mem_nil
  exact ClosureLoad.Tallied.mk List.mem_cons_self Holdback.default_balanced hnone List.nodup_nil
    hbelow hone fun _ => Iff.rfl

end ClosureLoad

end ModuleLoader
