import Mathlib.Data.Finset.Card
import ModuleLoader.Proofs.Ledgers
/-!
What a holdback has let through and what it holds back, exactly. Whatever order nodes are delivered in, an
entry is let through once all that it depends on was delivered, and each other one is held back under the
number of distinct nodes that it still waits for.
-/

namespace ModuleLoader
set_option autoImplicit false

/-- The distinct nodes that a delivery depends on and that are not among those settled. -/
def Delivery.unsettled (delivery : Delivery) (settled : List Node) : Finset Node :=
  delivery.continuations.toFinset \ settled.toFinset

namespace Delivery

variable {delivery : Delivery} {settled : List Node} {node needed : Node}

theorem mem_unsettled : needed ∈ delivery.unsettled settled ↔
    needed ∈ delivery.continuations ∧ needed ∉ settled := by
  simp [unsettled]

theorem unsettled_eq_empty : delivery.unsettled settled = ∅ ↔
    ∀ needed ∈ delivery.continuations, needed ∈ settled := by
  simp [Finset.eq_empty_iff_forall_notMem, mem_unsettled]

theorem unsettled_congr {settled' : List Node} (h : ∀ node, node ∈ settled' ↔ node ∈ settled) :
    delivery.unsettled settled' = delivery.unsettled settled := by
  ext needed
  rw [mem_unsettled, mem_unsettled, h]

/-- One more node settles. It counts if the delivery depends on it. -/
theorem card_unsettled_cons (hnew : node ∉ settled) : (delivery.unsettled settled).card =
    (delivery.unsettled (node :: settled)).card + if node ∈ delivery.continuations then 1 else 0 := by
  have herase : delivery.unsettled (node :: settled) = (delivery.unsettled settled).erase node := by
    ext needed
    simp only [Finset.mem_erase, mem_unsettled, List.mem_cons]
    tauto
  rw [herase]
  split
  · rename_i hmem
    exact (Finset.card_erase_add_one (mem_unsettled.2 ⟨hmem, hnew⟩)).symm
  · rename_i hmem
    rw [Finset.erase_eq_of_notMem fun h => hmem (mem_unsettled.1 h).1, Nat.add_zero]

end Delivery

namespace Holdback

variable {holdback : Holdback} {node blocker : Node}

/-! ### Who waits for whom -/

theorem blockedBy_block (blocker node other : Node) :
    { holdback with blocked := block holdback.blocked blocker node }.blockedBy other =
      holdback.blockedBy other ++ if other = blocker then [node] else [] := by
  obtain ⟨delivered, held, blocked⟩ := holdback
  induction blocked with
  | nil =>
    by_cases h : other = blocker
    · simp [blockedBy, block, h]
    · simp [blockedBy, block, h, Ne.symm h]
  | cons first rest ih =>
    obtain ⟨key, nodes⟩ := first
    unfold block
    by_cases hkey : key = blocker
    · subst hkey
      by_cases h : other = key
      · simp [blockedBy, h]
      · simp [blockedBy, h, Ne.symm h]
    · by_cases h : key = other
      · subst h
        simp [blockedBy, hkey]
      · simpa [blockedBy, hkey, h] using ih

/-- A node that waits for several others is noted with each of them. -/
theorem blockedBy_blockAll (node other : Node) : ∀ (blockers : List Node) (holdback : Holdback), blockers.Nodup →
    { holdback with
      blocked := blockers.foldl (fun blocked blocker => block blocked blocker node) holdback.blocked }.blockedBy
        other = holdback.blockedBy other ++ if other ∈ blockers then [node] else []
  | [], holdback, _ => by simp
  | blocker :: rest, holdback, h => by
    obtain ⟨hfirst, hrest⟩ := List.nodup_cons.1 h
    have hall := blockedBy_blockAll node other rest
      { holdback with blocked := block holdback.blocked blocker node } hrest
    rw [blockedBy_block] at hall
    refine hall.trans ?_
    by_cases hother : other = blocker
    · subst hother
      simp [hfirst]
    · simp [hother]

theorem blockedBy_filter (holdback : Holdback) {other : Node} (hne : other ≠ node) :
    { holdback with blocked := holdback.blocked.filter fun pair => pair.1 ≠ node }.blockedBy other =
      holdback.blockedBy other := by
  unfold blockedBy
  rw [List.find?_filter]
  congr 2
  funext pair
  by_cases h : pair.1 = other <;> simp [h, hne]

/-! ### Counting down -/

theorem mem_held_cons {who place : Node} {entry found : Entry} {missing count : Nat} {rest : List Held} :
    ⟨who, entry, missing⟩ ∈ (⟨place, found, count⟩ : Held) :: rest ↔
      (who = place ∧ entry = found ∧ missing = count) ∨ ⟨who, entry, missing⟩ ∈ rest := by
  simp only [List.mem_cons, Held.mk.injEq]

/-- A countdown that meets its node at once, and nowhere else. -/
theorem countDown_first {node : Node} {found : Entry} {count : Nat} {rest : List Held} (hone : 1 ≤ count)
    (hout : ∀ entry missing, ⟨node, entry, missing⟩ ∉ rest) (hothers : ∀ other ∈ rest, 1 ≤ other.missing)
    (who : Node) (entry : Entry) :
    (∀ missing, ⟨who, entry, missing⟩ ∈ (countDown (⟨node, found, count⟩ :: rest) node).1 ↔ 1 ≤ missing ∧
      ⟨who, entry, missing + if node = who then 1 else 0⟩ ∈ (⟨node, found, count⟩ : Held) :: rest) ∧
    ((countDown (⟨node, found, count⟩ :: rest) node).2 = some (who, entry) ↔
      node = who ∧ ⟨who, entry, 1⟩ ∈ (⟨node, found, count⟩ : Held) :: rest) := by
  have hstill (missing : Nat) (hmem : ⟨who, entry, missing⟩ ∈ rest) : 1 ≤ missing := hothers _ hmem
  unfold countDown
  rw [if_pos rfl]
  by_cases hwho : node = who
  · subst hwho
    split
    · rename_i hlast
      dsimp only at hlast
      obtain rfl : count = 1 := by omega
      simp only [mem_held_cons, hout, or_false, true_and, if_true, false_iff, Option.some.injEq, Prod.mk.injEq]
      exact ⟨fun missing => by omega, by tauto⟩
    · rename_i hmany
      dsimp only at hmany
      simp only [mem_held_cons, hout, or_false, true_and, if_true]
      refine ⟨fun missing => ⟨?_, ?_⟩, ?_⟩
      · rintro ⟨hentry, hcount⟩
        exact ⟨by omega, hentry, by omega⟩
      · rintro ⟨-, hentry, hcount⟩
        exact ⟨hentry, by omega⟩
      · simp only [reduceCtorEq, false_iff]
        omega
  · split
    · simp only [mem_held_cons, Ne.symm hwho, hwho, false_and, false_or, Nat.add_zero]
      exact ⟨fun missing => ⟨fun hmem => ⟨hstill missing hmem, hmem⟩, And.right⟩, by simp [hwho]⟩
    · simp only [mem_held_cons, Ne.symm hwho, hwho, false_and, false_or, Nat.add_zero]
      exact ⟨fun missing => ⟨fun hmem => ⟨hstill missing hmem, hmem⟩, And.right⟩, by simp⟩

/-- One countdown: whoever is left has been counted, and whoever had one to go is found. -/
theorem countDown_exact (node who : Node) (entry : Entry) : ∀ {held : List Held},
    (held.map Held.node).Nodup → (∀ first ∈ held, 1 ≤ first.missing) →
      (∀ missing, ⟨who, entry, missing⟩ ∈ (countDown held node).1 ↔
        1 ≤ missing ∧ ⟨who, entry, missing + if node = who then 1 else 0⟩ ∈ held) ∧
      ((countDown held node).2 = some (who, entry) ↔ node = who ∧ ⟨who, entry, 1⟩ ∈ held)
  -- By induction on what is held.
  | [], _, _ => by simp [countDown]
  | ⟨place, found, count⟩ :: rest, hnodup, hpositive => by
    obtain ⟨hfirst, hrest⟩ := List.nodup_cons.1 hnodup
    have hone : 1 ≤ count := hpositive _ List.mem_cons_self
    have hothers := fun other hmem => hpositive other (List.mem_cons_of_mem _ hmem)
    by_cases hplace : place = node
    · subst hplace
      exact countDown_first hone (fun entry missing hmem => hfirst (List.mem_map.2 ⟨_, hmem, rfl⟩)) hothers
        who entry
    · obtain ⟨hleft, hfound⟩ := countDown_exact node who entry hrest hothers
      unfold countDown
      rw [if_neg hplace]
      simp only [mem_held_cons]
      by_cases hwho : node = who
      · subst hwho
        simp only [Ne.symm hplace, false_and, false_or, if_true] at hleft hfound ⊢
        exact ⟨hleft, hfound⟩
      · simp only [if_neg hwho, Nat.add_zero] at hleft ⊢
        refine ⟨fun missing => ?_, hfound.trans (by simp [hwho])⟩
        rw [hleft]
        constructor
        · rintro (⟨hwho, hentry, rfl⟩ | ⟨hone, hmem⟩)
          · exact ⟨hone, .inl ⟨hwho, hentry, rfl⟩⟩
          · exact ⟨hone, .inr hmem⟩
        · rintro ⟨hone, hfirst | hmem⟩
          · exact .inl hfirst
          · exact .inr ⟨hone, hmem⟩

/-- Several countdowns, each node as often as it is named. -/
theorem countDownAll_exact (who : Node) (entry : Entry) : ∀ (nodes : List Node) {held : List Held},
    (held.map Held.node).Nodup → (∀ first ∈ held, 1 ≤ first.missing) →
      (∀ missing, ⟨who, entry, missing⟩ ∈ (countDownAll held nodes).1 ↔
        1 ≤ missing ∧ ⟨who, entry, missing + nodes.count who⟩ ∈ held) ∧
      ((who, entry) ∈ (countDownAll held nodes).2 ↔
        ∃ missing, 1 ≤ missing ∧ missing ≤ nodes.count who ∧ ⟨who, entry, missing⟩ ∈ held)
  | [], held, _, hpositive => by
    refine ⟨fun missing => ⟨fun hmem => ⟨hpositive _ hmem, hmem⟩, And.right⟩, ?_⟩
    simp only [countDownAll, List.count_nil, List.not_mem_nil, false_iff]
    rintro ⟨missing, hone, hnone, -⟩
    omega
  | node :: nodes, held, hnodup, hpositive => by
    obtain ⟨hsub, hspec, -⟩ := countDown_spec node hnodup hpositive
    obtain ⟨hleft, hfound⟩ := countDown_exact node who entry hnodup hpositive
    obtain ⟨hleft', hfound'⟩ := countDownAll_exact who entry nodes (hnodup.sublist hsub)
      fun left hmem => (hspec left hmem).1
    have hcount : (node :: nodes).count who = nodes.count who + if node = who then 1 else 0 := by
      simp only [List.count_cons, beq_iff_eq]
    rw [hcount]
    refine ⟨fun missing => ?_, ?_⟩
    · refine (hleft' missing).trans ⟨fun ⟨hone, hmem⟩ => ⟨hone, ?_⟩, fun ⟨hone, hmem⟩ => ⟨hone, ?_⟩⟩
      · exact Nat.add_assoc _ _ _ ▸ ((hleft _).1 hmem).2
      · exact (hleft _).2 ⟨by omega, (Nat.add_assoc _ _ _).symm ▸ hmem⟩
    · change (who, entry) ∈ (countDown held node).2.toList ++ _ ↔ _
      rw [List.mem_append, Option.mem_toList, hfound, hfound']
      constructor
      · rintro (⟨hnode, hmem⟩ | ⟨missing, hone, hle, hmem⟩)
        · exact ⟨1, Nat.le_refl 1, by rw [if_pos hnode]; omega, hmem⟩
        · refine ⟨_, ?_, ?_, ((hleft missing).1 hmem).2⟩ <;> omega
      · rintro ⟨missing, hone, hle, hmem⟩
        by_cases hnode : node = who
        · rw [if_pos hnode] at hle hleft
          rcases Nat.lt_or_eq_of_le hone with hmany | rfl
          · refine .inr ⟨missing - 1, by omega, by omega, (hleft _).2 ⟨by omega, ?_⟩⟩
            rwa [Nat.sub_add_cancel hone]
          · exact .inl ⟨hnode, hmem⟩
        · rw [if_neg hnode] at hle hleft
          exact .inr ⟨missing, hone, hle, (hleft missing).2 ⟨hone, hmem⟩⟩

/-- No entry is found twice. -/
theorem nodup_countDownAll : ∀ (nodes : List Node) {held : List Held}, (held.map Held.node).Nodup →
    (∀ first ∈ held, 1 ≤ first.missing) → ((countDownAll held nodes).2.map Prod.fst).Nodup
  | [], _, _, _ => List.nodup_nil
  | node :: nodes, held, hnodup, hpositive => by
    obtain ⟨hsub, hspec, -⟩ := countDown_spec node hnodup hpositive
    have hnodup' := hnodup.sublist hsub
    have hpositive' : ∀ left ∈ (countDown held node).1, 1 ≤ left.missing := fun left hmem => (hspec left hmem).1
    change ((countDown held node).2.toList ++ (countDownAll (countDown held node).1 nodes).2 |>.map Prod.fst).Nodup
    rw [List.map_append, List.nodup_append]
    refine ⟨?_, nodup_countDownAll nodes hnodup' hpositive', ?_⟩
    · cases (countDown held node).2 <;> simp
    · rintro who hwho _ hlater rfl
      obtain ⟨⟨_, entry⟩, hfound, rfl⟩ := List.mem_map.1 hwho
      obtain ⟨⟨_, other⟩, hother, rfl⟩ := List.mem_map.1 hlater
      rw [Option.mem_toList] at hfound
      obtain ⟨rfl, hlast⟩ := (countDown_exact node _ entry hnodup hpositive).2.1 hfound
      obtain ⟨missing, hone, -, hleft⟩ := (countDownAll_exact _ other nodes hnodup' hpositive').2.1 hother
      obtain ⟨-, hheld⟩ := ((countDown_exact _ _ other hnodup hpositive).1 missing).1 hleft
      rw [if_pos rfl] at hheld
      have hsame := congrArg Held.missing (List.inj_on_of_nodup_map hnodup hlast hheld rfl)
      dsimp only at hsame
      omega

/-! ### Deliveries -/

variable {delivery : Delivery} {calls : List (Node × Delivery)} {entered : List (Node × Entry)}

theorem card_unsettled_eq_length (delivered : List Node) (delivery : Delivery) :
    (delivery.unsettled delivered).card = (blockers delivered delivery.continuations).length := by
  obtain ⟨hnodup, hmem⟩ := blockers_spec delivered delivery.continuations
  rw [← List.toFinset_card_of_nodup hnodup]
  congr 1
  ext needed
  rw [Delivery.mem_unsettled, List.mem_toFinset, hmem]

/-- What is held back once the entry of a delivery is, if anything blocks it. -/
def registered (holdback : Holdback) (node : Node) (delivery : Delivery) : List Held :=
  if delivery.fromMemo || (blockers (node :: holdback.delivered) delivery.continuations).isEmpty then holdback.held
  else holdback.held ++
    [⟨node, delivery.entry, (blockers (node :: holdback.delivered) delivery.continuations).length⟩]

/-- A delivery registers its own entry, and then counts down those that waited for its node. -/
theorem deliver_eq (holdback : Holdback) (node : Node) (delivery : Delivery) :
    (holdback.deliver node delivery).1.held =
        (countDownAll (holdback.registered node delivery) (holdback.blockedBy node)).1 ∧
      (holdback.deliver node delivery).2 =
        (if delivery.fromMemo || !(blockers (node :: holdback.delivered) delivery.continuations).isEmpty then []
          else [(node, delivery.entry)]) ++
            (countDownAll (holdback.registered node delivery) (holdback.blockedBy node)).2 ∧
      ∀ other, other ≠ node → (holdback.deliver node delivery).1.blockedBy other = holdback.blockedBy other ++
        if delivery.fromMemo = false ∧ other ∈ blockers (node :: holdback.delivered) delivery.continuations
          then [node] else [] := by
  obtain ⟨hnodup, hmem⟩ := blockers_spec (node :: holdback.delivered) delivery.continuations
  have hself : node ∉ blockers (node :: holdback.delivered) delivery.continuations := fun h =>
    ((hmem node).1 h).2 List.mem_cons_self
  cases hmemo : delivery.fromMemo with
  | true =>
    simp only [deliver, registered, hmemo, if_true, Bool.true_or, List.foldl_nil]
    exact ⟨rfl, rfl, fun other hne => (blockedBy_filter holdback hne).trans (by simp)⟩
  | false =>
    have hwaiting (other : Node) := blockedBy_blockAll node other
      (blockers (node :: holdback.delivered) delivery.continuations) holdback hnodup
    simp only [deliver, registered, hmemo, Bool.false_eq_true, if_false, Bool.false_or]
    have hnode := (hwaiting node).trans (by rw [if_neg hself, List.append_nil])
    cases hempty : (blockers (node :: holdback.delivered) delivery.continuations).isEmpty with
    | true =>
      have hnone : blockers (node :: holdback.delivered) delivery.continuations = [] := by
        simpa using hempty
      simp only [hnone, if_true, List.foldl_nil, Bool.not_true, Bool.false_eq_true, if_false]
      exact ⟨rfl, rfl, fun other hne => (blockedBy_filter holdback hne).trans (by simp)⟩
    | false =>
      simp only [if_false, Bool.false_eq_true, Bool.not_false, if_true, true_and, List.nil_append]
      refine ⟨congrArg (fun waiting => (countDownAll _ waiting).1) hnode,
        congrArg (fun waiting => (countDownAll _ waiting).2) hnode, fun other hne => ?_⟩
      exact (blockedBy_filter { holdback with
        blocked := (blockers (node :: holdback.delivered) delivery.continuations).foldl
          (fun blocked blocker => block blocked blocker node) holdback.blocked } hne).trans (hwaiting other)

theorem mem_registered {who : Node} {entry : Entry} {missing : Nat} :
    ⟨who, entry, missing⟩ ∈ holdback.registered node delivery ↔ ⟨who, entry, missing⟩ ∈ holdback.held ∨
      who = node ∧ delivery.fromMemo = false ∧ delivery.entry = entry ∧ 1 ≤ missing ∧
        (delivery.unsettled (node :: holdback.delivered)).card = missing := by
  rw [card_unsettled_eq_length]
  unfold registered
  split
  · rename_i hnone
    refine ⟨.inl, fun h => h.resolve_right ?_⟩
    rintro ⟨-, hmemo, -, hone, rfl⟩
    rw [hmemo, Bool.false_or, List.isEmpty_iff] at hnone
    rw [hnone] at hone
    cases hone
  · rename_i hsome
    rw [Bool.or_eq_true, not_or, Bool.not_eq_true, List.isEmpty_iff] at hsome
    have hone := List.length_pos_iff.2 hsome.2
    rw [List.mem_append, List.mem_singleton, Held.mk.injEq]
    refine or_congr_right ⟨?_, ?_⟩
    · rintro ⟨hwho, rfl, rfl⟩
      exact ⟨hwho, hsome.1, rfl, hone, rfl⟩
    · rintro ⟨hwho, -, rfl, -, rfl⟩
      exact ⟨hwho, rfl, rfl⟩

/-- The entry of a delivery enters at once if nothing that it depends on is missing. -/
theorem mem_entered_first {who : Node} {entry : Entry} :
    ((who, entry) ∈ if delivery.fromMemo || !(blockers (node :: holdback.delivered) delivery.continuations).isEmpty
        then [] else [(node, delivery.entry)]) ↔
      who = node ∧ delivery.fromMemo = false ∧ delivery.entry = entry ∧
        (delivery.unsettled (node :: holdback.delivered)).card = 0 := by
  rw [card_unsettled_eq_length, List.length_eq_zero_iff, ← List.isEmpty_iff]
  cases delivery.fromMemo <;>
    cases (blockers (node :: holdback.delivered) delivery.continuations).isEmpty <;>
      simp [eq_comm]

/-- The books stay in order when a delivery registers its entry. -/
theorem registered_spec (h : holdback.Balanced) (hnew : node ∉ holdback.delivered) (delivery : Delivery) :
    ((holdback.registered node delivery).map Held.node).Nodup ∧
      ∀ held ∈ holdback.registered node delivery, 1 ≤ held.missing := by
  constructor
  · unfold registered
    split
    · exact h.nodup
    · rw [List.map_append]
      refine List.nodup_append.2 ⟨h.nodup, List.nodup_singleton _, ?_⟩
      rintro who hwho _ hlast rfl
      obtain ⟨held, hheld, hnode⟩ := List.mem_map.1 hwho
      have hlast : who = node := List.mem_singleton.1 hlast
      exact hnew (hlast ▸ hnode ▸ h.held held hheld)
  · rintro ⟨who, entry, missing⟩ hmem
    rcases mem_registered.1 hmem with hheld | ⟨-, -, -, hone, -⟩
    · exact h.missing _ hheld
    · exact hone

/-- Which entries entered the memo by some deliveries, and which are held back: those that were delivered
and all of whose dependencies were, and the others. -/
structure Exact (calls : List (Node × Delivery)) (holdback : Holdback) (entered : List (Node × Entry)) :
    Prop where
  balanced : holdback.Balanced
  delivered : ∀ node, node ∈ holdback.delivered ↔ node ∈ calls.map Prod.fst
  held : ∀ node entry missing, ⟨node, entry, missing⟩ ∈ holdback.held ↔ 1 ≤ missing ∧
    ∃ delivery, (node, delivery) ∈ calls ∧ delivery.fromMemo = false ∧ delivery.entry = entry ∧
      (delivery.unsettled holdback.delivered).card = missing
  /-- What waits for a node is named there once. -/
  waits : ∀ blocker, blocker ∉ holdback.delivered → ∀ node delivery, (node, delivery) ∈ calls →
    delivery.fromMemo = false → (holdback.blockedBy blocker).count node =
      if blocker ∈ delivery.continuations then 1 else 0
  known : ∀ blocker, blocker ∉ holdback.delivered → ∀ node ∈ holdback.blockedBy blocker, node ∈ holdback.delivered
  once : (entered.map Prod.fst).Nodup
  entered : ∀ node entry, (node, entry) ∈ entered ↔ ∃ delivery, (node, delivery) ∈ calls ∧
    delivery.fromMemo = false ∧ delivery.entry = entry ∧ (delivery.unsettled holdback.delivered).card = 0

theorem Exact.start : Exact [] default [] where
  balanced := default_balanced
  delivered _ := Iff.rfl
  held _ _ _ := ⟨fun hmem => (nomatch hmem), fun ⟨_, _, hmem, _⟩ => (nomatch hmem)⟩
  waits _ _ _ _ hmem := nomatch hmem
  known _ _ _ hmem := nomatch hmem
  once := List.nodup_nil
  entered _ _ := ⟨fun hmem => (nomatch hmem), fun ⟨_, hmem, _⟩ => (nomatch hmem)⟩

theorem mem_append_call (hnew : node ∉ calls.map Prod.fst) {who : Node} {other : Delivery} :
    (who, other) ∈ calls ++ [(node, delivery)] ↔
      who = node ∧ other = delivery ∨ who ≠ node ∧ (who, other) ∈ calls := by
  rw [List.mem_append, List.mem_singleton, Prod.mk.injEq]
  constructor
  · rintro (hmem | hlast)
    · refine .inr ⟨?_, hmem⟩
      rintro rfl
      exact hnew (List.mem_map.2 ⟨_, hmem, rfl⟩)
    · exact .inl hlast
  · rintro (hlast | ⟨-, hmem⟩)
    · exact .inr hlast
    · exact .inl hmem

namespace Exact

section
variable (h : Exact calls holdback entered) (hnew : node ∉ calls.map Prod.fst)
include h hnew

theorem fresh : node ∉ holdback.delivered :=
  fun hmem => hnew ((h.delivered node).1 hmem)

/-- What is held back for an older node after the delivery, or found by it, has counted the node if it
depends on it. -/
theorem mem_registered_other {who : Node} {entry : Entry} {missing : Nat} (hwho : who ≠ node) :
    ⟨who, entry, missing + (holdback.blockedBy node).count who⟩ ∈ holdback.registered node delivery ↔
      1 ≤ missing + (holdback.blockedBy node).count who ∧ ∃ other, (who, other) ∈ calls ∧
        other.fromMemo = false ∧ other.entry = entry ∧
          (other.unsettled (node :: holdback.delivered)).card = missing := by
  have hfresh := h.fresh hnew
  rw [mem_registered, or_iff_left fun hlast => hwho hlast.1, h.held]
  refine and_congr_right fun _ => exists_congr fun other => and_congr_right fun hmem =>
    and_congr_right fun hmemo => and_congr_right fun _ => ?_
  rw [h.waits node hfresh who other hmem hmemo, other.card_unsettled_cons hfresh]
  exact Nat.add_right_cancel_iff

/-- Nobody waits for a node in its own name. -/
theorem count_self : (holdback.blockedBy node).count node = 0 :=
  List.count_eq_zero.2 fun hmem => h.fresh hnew (h.known node (h.fresh hnew) node hmem)

theorem mem_registered_self {entry : Entry} {missing : Nat} :
    ⟨node, entry, missing⟩ ∈ holdback.registered node delivery ↔ 1 ≤ missing ∧ delivery.fromMemo = false ∧
      delivery.entry = entry ∧ (delivery.unsettled (node :: holdback.delivered)).card = missing := by
  rw [mem_registered, or_iff_right fun hmem => h.fresh hnew (h.balanced.held _ hmem)]
  tauto

theorem deliver_held {who : Node} {entry : Entry} {missing : Nat} :
    ⟨who, entry, missing⟩ ∈ (holdback.deliver node delivery).1.held ↔ 1 ≤ missing ∧
      ∃ other, (who, other) ∈ calls ++ [(node, delivery)] ∧ other.fromMemo = false ∧ other.entry = entry ∧
        (other.unsettled (node :: holdback.delivered)).card = missing := by
  obtain ⟨hnodup, hpositive⟩ := registered_spec h.balanced (h.fresh hnew) delivery
  rw [(deliver_eq holdback node delivery).1,
    (countDownAll_exact who entry (holdback.blockedBy node) hnodup hpositive).1 missing]
  refine and_congr_right fun hone => ?_
  simp only [mem_append_call hnew]
  by_cases hwho : who = node
  · subst hwho
    rw [h.count_self hnew, Nat.add_zero, h.mem_registered_self hnew]
    simp [hone]
  · rw [h.mem_registered_other hnew hwho]
    simp [hwho, Nat.le_add_right_of_le hone]

/-- What waited for the node, and for nothing else, is found. -/
theorem found_other {who : Node} {entry : Entry} (hwho : who ≠ node) :
    (∃ missing, 1 ≤ missing ∧ missing ≤ (holdback.blockedBy node).count who ∧
      ⟨who, entry, missing⟩ ∈ holdback.registered node delivery) ↔
    ∃ other, (who, other) ∈ calls ∧ other.fromMemo = false ∧ other.entry = entry ∧
      node ∈ other.continuations ∧ (other.unsettled (node :: holdback.delivered)).card = 0 := by
  have hfresh := h.fresh hnew
  constructor
  · rintro ⟨missing, hone, hle, hmem⟩
    rw [mem_registered, or_iff_left fun hlast => hwho hlast.1, h.held] at hmem
    obtain ⟨-, other, hmem, hmemo, hentry, hcard⟩ := hmem
    rw [h.waits node hfresh who other hmem hmemo] at hle
    have hsettle := other.card_unsettled_cons hfresh
    split at hle
    · rename_i hneeds
      rw [if_pos hneeds] at hsettle
      exact ⟨other, hmem, hmemo, hentry, hneeds, by omega⟩
    · omega
  · rintro ⟨other, hmem, hmemo, hentry, hneeds, hcard⟩
    have hcount := h.waits node hfresh who other hmem hmemo
    rw [if_pos hneeds] at hcount
    refine ⟨1, Nat.le_refl 1, hcount.ge, ?_⟩
    have hfound : ⟨who, entry, 0 + (holdback.blockedBy node).count who⟩ ∈ holdback.registered node delivery :=
      (h.mem_registered_other hnew hwho).2 ⟨by omega, other, hmem, hmemo, hentry, hcard⟩
    rwa [hcount] at hfound

theorem deliver_entered {who : Node} {entry : Entry} :
    (who, entry) ∈ entered ++ (holdback.deliver node delivery).2 ↔
      ∃ other, (who, other) ∈ calls ++ [(node, delivery)] ∧ other.fromMemo = false ∧ other.entry = entry ∧
        (other.unsettled (node :: holdback.delivered)).card = 0 := by
  have hfresh := h.fresh hnew
  obtain ⟨hnodup, hpositive⟩ := registered_spec h.balanced hfresh delivery
  rw [(deliver_eq holdback node delivery).2.1, List.mem_append, List.mem_append, mem_entered_first, h.entered,
    (countDownAll_exact who entry (holdback.blockedBy node) hnodup hpositive).2]
  simp only [mem_append_call hnew]
  by_cases hwho : who = node
  · subst hwho
    have hnone (other : Delivery) : (who, other) ∉ calls := fun hmem => hnew (List.mem_map.2 ⟨_, hmem, rfl⟩)
    rw [h.count_self hnew]
    simp only [hnone, false_and, exists_false, true_and, false_or, ne_eq, not_true_eq_false, or_false,
      exists_eq_left]
    refine or_iff_left ?_
    rintro ⟨missing, hone, hnot, -⟩
    omega
  · rw [h.found_other hnew hwho]
    simp only [hwho, false_and, false_or, ne_eq, not_false_eq_true, true_and]
    rw [← exists_or]
    refine exists_congr fun other => ?_
    by_cases hneeds : node ∈ other.continuations
    · have hsettle := other.card_unsettled_cons hfresh
      rw [if_pos hneeds] at hsettle
      simp [hneeds, hsettle]
    · have hsettle := other.card_unsettled_cons hfresh
      rw [if_neg hneeds, Nat.add_zero] at hsettle
      simp [hneeds, hsettle]

/-- No entry enters twice. -/
theorem deliver_once (hcalls : (calls.map Prod.fst).Nodup) :
    ((entered ++ (holdback.deliver node delivery).2).map Prod.fst).Nodup := by
  have hfresh := h.fresh hnew
  obtain ⟨hnodup, hpositive⟩ := registered_spec h.balanced hfresh delivery
  have hfound (entry : Entry) := (countDownAll_exact node entry (holdback.blockedBy node) hnodup hpositive).2
  have hself (entry : Entry) : (node, entry) ∉
      (countDownAll (holdback.registered node delivery) (holdback.blockedBy node)).2 := by
    rw [hfound, h.count_self hnew]
    rintro ⟨missing, hone, hnone, -⟩
    omega
  rw [(deliver_eq holdback node delivery).2.1, List.map_append, List.map_append, List.nodup_append,
    List.nodup_append]
  refine ⟨h.once, ⟨?_, nodup_countDownAll _ hnodup hpositive, ?_⟩, ?_⟩
  · split
    · exact List.nodup_nil
    · exact List.nodup_singleton _
  · rintro who hfirst _ hlater rfl
    obtain ⟨⟨_, entry⟩, hmem, rfl⟩ := List.mem_map.1 hfirst
    obtain ⟨⟨who, other⟩, hother, hsame⟩ := List.mem_map.1 hlater
    have hnode : who = node := hsame.trans (mem_entered_first.1 hmem).1
    exact hself other (hnode ▸ hother)
  · rintro who hbefore _ hlater rfl
    obtain ⟨⟨who, entry⟩, hmem, rfl⟩ := List.mem_map.1 hbefore
    obtain ⟨old, hold, -, -, hcard⟩ := (h.entered who entry).1 hmem
    have hwho : who ≠ node := by
      rintro rfl
      exact hnew (List.mem_map.2 ⟨_, hold, rfl⟩)
    rcases List.mem_append.1 hlater with hlater | hlater
    · obtain ⟨⟨_, other⟩, hother, rfl⟩ := List.mem_map.1 hlater
      exact hwho (mem_entered_first.1 hother).1
    · obtain ⟨⟨_, other⟩, hother, rfl⟩ := List.mem_map.1 hlater
      rw [(countDownAll_exact _ other (holdback.blockedBy node) hnodup hpositive).2,
        h.found_other hnew hwho] at hother
      obtain ⟨new, hmem, -, -, hneeds, -⟩ := hother
      obtain rfl : old = new :=
        congrArg Prod.snd (List.inj_on_of_nodup_map hcalls hold hmem rfl)
      have hsettle := old.card_unsettled_cons hfresh
      rw [if_pos hneeds] at hsettle
      omega

end

/-- One more node is delivered. -/
theorem deliver (h : Exact calls holdback entered) (hcalls : (calls.map Prod.fst).Nodup)
    (hnew : node ∉ calls.map Prod.fst) (delivery : Delivery) :
    Exact (calls ++ [(node, delivery)]) (holdback.deliver node delivery).1
      (entered ++ (holdback.deliver node delivery).2) := by
  have hfresh := h.fresh hnew
  obtain ⟨hbalanced, hdelivered, -⟩ := deliver_delivered delivery h.balanced hfresh
  obtain ⟨-, -, hblocked⟩ := deliver_eq holdback node delivery
  refine ⟨hbalanced, fun who => ?_, fun who entry missing => ?_, fun blocker hopen who other hmem hmemo => ?_,
    fun blocker hopen who hmem => ?_, h.deliver_once hnew hcalls, fun who entry => ?_⟩
  · rw [hdelivered, List.mem_cons, h.delivered, List.map_append, List.mem_append, List.map_cons, List.map_nil,
      List.mem_singleton, or_comm]
  · rw [hdelivered]
    exact h.deliver_held hnew
  · rw [hdelivered, List.mem_cons, not_or] at hopen
    have hneeds : blocker ∈ blockers (node :: holdback.delivered) delivery.continuations ↔
        blocker ∈ delivery.continuations := by
      rw [(blockers_spec _ _).2, List.mem_cons, not_or]
      exact and_iff_left hopen
    rw [hblocked blocker hopen.1, List.count_append]
    simp only [hneeds]
    rcases (mem_append_call hnew).1 hmem with ⟨rfl, rfl⟩ | ⟨hwho, hmem⟩
    · rw [List.count_eq_zero.2 fun hold => hfresh (h.known blocker hopen.2 who hold), hmemo]
      by_cases hmem : blocker ∈ other.continuations <;> simp [hmem]
    · rw [h.waits blocker hopen.2 who other hmem hmemo]
      refine Nat.add_eq_left.2 (List.count_eq_zero.2 fun hlast => hwho ?_)
      split at hlast
      · exact List.mem_singleton.1 hlast
      · cases hlast
  · rw [hdelivered, List.mem_cons, not_or] at hopen
    rw [hblocked blocker hopen.1, List.mem_append] at hmem
    rw [hdelivered]
    rcases hmem with hmem | hmem
    · exact List.mem_cons_of_mem _ (h.known blocker hopen.2 who hmem)
    · split at hmem
      · exact List.mem_cons.2 (.inl (List.mem_singleton.1 hmem))
      · cases hmem
  · rw [hdelivered]
    exact h.deliver_entered hnew

end Exact

/-- The books after some deliveries, and what entered the memo by them, in order. -/
def deliverAll (calls : List (Node × Delivery)) : Holdback × List (Node × Entry) :=
  calls.foldl (fun (holdback, entered) (node, delivery) =>
    ((holdback.deliver node delivery).1, entered ++ (holdback.deliver node delivery).2)) (default, [])

theorem deliverAll_exact (calls : List (Node × Delivery)) (hcalls : (calls.map Prod.fst).Nodup) :
    Exact calls (deliverAll calls).1 (deliverAll calls).2 := by
  -- By induction on the deliveries.
  induction calls using List.reverseRecOn with
  | nil => exact .start
  | append_singleton calls call ih =>
    obtain ⟨node, delivery⟩ := call
    rw [List.map_append, List.nodup_append] at hcalls
    obtain ⟨hcalls, -, hnew⟩ := hcalls
    have hnew : node ∉ calls.map Prod.fst := fun hmem => hnew node hmem node List.mem_cons_self rfl
    have hdeliver : deliverAll (calls ++ [(node, delivery)]) =
        (((deliverAll calls).1.deliver node delivery).1,
          (deliverAll calls).2 ++ ((deliverAll calls).1.deliver node delivery).2) := by
      rw [deliverAll, List.foldl_append]
      rfl
    rw [hdeliver]
    exact (ih hcalls).deliver hcalls hnew delivery

/-- What has become of some deliveries, each of another node. -/
structure Accounts (calls : List (Node × Delivery)) : Prop where
  /-- Those entered the memo that did not come out of it, and all of whose dependencies were delivered. -/
  entered : ∀ node entry, (node, entry) ∈ (deliverAll calls).2 ↔ ∃ delivery, (node, delivery) ∈ calls ∧
    delivery.fromMemo = false ∧ delivery.entry = entry ∧
      ∀ needed ∈ delivery.continuations, needed ∈ calls.map Prod.fst
  entered_once : ((deliverAll calls).2.map Prod.fst).Nodup
  /-- Each other one is held back, under the number of distinct nodes that it still waits for. -/
  held : ∀ node entry missing, ⟨node, entry, missing⟩ ∈ (deliverAll calls).1.held ↔ ∃ delivery,
    (node, delivery) ∈ calls ∧ delivery.fromMemo = false ∧ delivery.entry = entry ∧
      (∃ needed ∈ delivery.continuations, needed ∉ calls.map Prod.fst) ∧
        (delivery.unsettled (calls.map Prod.fst)).card = missing
  held_once : ((deliverAll calls).1.held.map Held.node).Nodup
  /-- Whatever is delivered next counts nobody down more often than the number says. -/
  covered : ∀ node, node ∉ calls.map Prod.fst → ∀ held ∈ (deliverAll calls).1.held,
    ((deliverAll calls).1.blockedBy node).count held.node ≤ held.missing
  /-- Giving up lets in exactly what is held back. -/
  giveUp : ∀ node entry, (node, entry) ∈ (deliverAll calls).1.giveUp ↔ ∃ delivery, (node, delivery) ∈ calls ∧
    delivery.fromMemo = false ∧ delivery.entry = entry ∧
      ∃ needed ∈ delivery.continuations, needed ∉ calls.map Prod.fst
  giveUp_once : ((deliverAll calls).1.giveUp.map Prod.fst).Nodup
  /-- Once all dependencies were delivered as well, nothing is held back. -/
  closed : (∀ node delivery, (node, delivery) ∈ calls → ∀ needed ∈ delivery.continuations,
    needed ∈ calls.map Prod.fst) → (deliverAll calls).1.held = []

/-- In whatever order nodes are delivered, each at most once, the entries that could enter the memo did, the
others are held back by as many nodes as are missing, and nothing gets lost. -/
theorem deliverAll_accounts (calls : List (Node × Delivery)) (hcalls : (calls.map Prod.fst).Nodup) :
    Accounts calls := by
  have h := deliverAll_exact calls hcalls
  have hsettled (delivery : Delivery) : delivery.unsettled (deliverAll calls).1.delivered =
      delivery.unsettled (calls.map Prod.fst) := Delivery.unsettled_congr h.delivered
  have hopen (delivery : Delivery) : 1 ≤ (delivery.unsettled (calls.map Prod.fst)).card ↔
      ∃ needed ∈ delivery.continuations, needed ∉ calls.map Prod.fst := by
    simp only [Nat.one_le_iff_ne_zero, ne_eq, Finset.card_eq_zero, Delivery.unsettled_eq_empty, not_forall,
      exists_prop]
  have hheld (node : Node) (entry : Entry) (missing : Nat) : ⟨node, entry, missing⟩ ∈ (deliverAll calls).1.held ↔
      ∃ delivery, (node, delivery) ∈ calls ∧ delivery.fromMemo = false ∧ delivery.entry = entry ∧
        (∃ needed ∈ delivery.continuations, needed ∉ calls.map Prod.fst) ∧
          (delivery.unsettled (calls.map Prod.fst)).card = missing := by
    rw [h.held]
    simp only [hsettled, ← hopen]
    constructor
    · rintro ⟨hone, delivery, hmem, hmemo, hentry, rfl⟩
      exact ⟨delivery, hmem, hmemo, hentry, hone, rfl⟩
    · rintro ⟨delivery, hmem, hmemo, hentry, hone, rfl⟩
      exact ⟨hone, delivery, hmem, hmemo, hentry, rfl⟩
  refine ⟨fun node entry => ?_, h.once, hheld, h.balanced.nodup, fun node hnew held hmem => ?_,
    fun node entry => ?_, ?_, fun hclosed => ?_⟩
  · rw [h.entered]
    simp only [hsettled, Finset.card_eq_zero, Delivery.unsettled_eq_empty]
  · have hfresh : node ∉ (deliverAll calls).1.delivered := fun h' => hnew ((h.delivered node).1 h')
    obtain ⟨hone, delivery, hcall, hmemo, -⟩ := (h.held held.node held.entry held.missing).1 hmem
    rw [h.waits node hfresh held.node delivery hcall hmemo]
    split
    · exact hone
    · exact Nat.zero_le _
  · rw [Holdback.giveUp, List.mem_map]
    constructor
    · rintro ⟨held, hmem, heq⟩
      obtain ⟨rfl, rfl⟩ := Prod.mk.injEq .. ▸ heq
      obtain ⟨delivery, hcall, hmemo, hentry, hneeds, -⟩ := (hheld held.node held.entry held.missing).1 hmem
      exact ⟨delivery, hcall, hmemo, hentry, hneeds⟩
    · rintro ⟨delivery, hcall, hmemo, hentry, hneeds⟩
      exact ⟨⟨node, entry, _⟩, (hheld node entry _).2 ⟨delivery, hcall, hmemo, hentry, hneeds, rfl⟩, rfl⟩
  · rw [Holdback.giveUp, List.map_map]
    exact h.balanced.nodup
  · refine List.eq_nil_iff_forall_not_mem.2 fun held hmem => ?_
    obtain ⟨delivery, hcall, -, -, ⟨needed, hneeded, hmissing⟩, -⟩ :=
      (hheld held.node held.entry held.missing).1 hmem
    exact hmissing (hclosed held.node delivery hcall needed hneeded)

/-- A ring of two, of which the first mentions itself and repeats the other, and a third node that only one
of them needs. The ring is delivered, the third node is not. -/
def ringCalls : List (Node × Delivery) :=
  [(⟨⟨0⟩, "a"⟩, ⟨.own ⟨0⟩, [⟨⟨0⟩, "a"⟩, ⟨⟨0⟩, "b"⟩, ⟨⟨0⟩, "b"⟩], false⟩),
   (⟨⟨0⟩, "b"⟩, ⟨.own ⟨1⟩, [⟨⟨0⟩, "a"⟩, ⟨⟨1⟩, "c"⟩, ⟨⟨1⟩, "c"⟩], false⟩)]

/-- One of the ring has entered, the other one waits for one node. -/
theorem deliverAll_accounts_ring : (ringCalls.map Prod.fst).Nodup ∧ Accounts ringCalls ∧
    (deliverAll ringCalls).2 = [(⟨⟨0⟩, "a"⟩, .own ⟨0⟩)] ∧
      (deliverAll ringCalls).1.held = [⟨⟨⟨0⟩, "b"⟩, .own ⟨1⟩, 1⟩] :=
  ⟨by decide, deliverAll_accounts ringCalls (by decide), by decide, by rfl⟩

end Holdback

end ModuleLoader
