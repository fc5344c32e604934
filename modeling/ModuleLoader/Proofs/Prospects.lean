import Mathlib.Data.List.Perm.Subperm
import Mathlib.Logic.Relation
import ModuleLoader.Proofs.Promises
/-!
What descriptors alone say about a node: that it is no module, that it is one with these requests, or
that it stands for another node. This is read off a host without running anything in it.
-/

namespace ModuleLoader
set_option autoImplicit false

/-- What the descriptor of a node makes of it. -/
inductive Prospect where
  /-- There is no descriptor, or it is no valid one, or a specifier does not resolve. -/
  | missing
  | module (requests : List Node)
  | redirect (target : Node)
  /-- It depends on more than descriptors. -/
  | unsettled
deriving DecidableEq

/-- Where the closure of a node continues. -/
def Prospect.next : Prospect → List Node
  | missing => []
  | module requests => requests
  | redirect target => [target]
  | unsettled => []

namespace Host

variable {host : Host}

/-- The prospect of a module with these bindings. -/
def prospectOfBindings (host : Host) (node : Node) (bindings : List Binding) : Prospect :=
  match (host.compartment node.compartment).resolveAll node.key (Binding.specifiers bindings) with
  | .error _ => .missing
  | .ok requests => .module (requests.map fun request => ⟨node.compartment, request.2⟩)

/-- The prospect of a node with this descriptor. Record aliases depend on what is memoized. -/
def prospectOf (host : Host) (node : Node) : Descriptor → Prospect
  | .compiled source => host.prospectOfBindings node source.bindings
  | .virtual source => host.prospectOfBindings node source.bindings
  | .exportsAlias (.exports _) => .module []
  | .exportsAlias (.object _) => .module []
  | .exportsAlias _ => .missing
  | .instanceAlias key owner => .redirect ⟨owner.getD node.compartment, key⟩
  | .recordAlias _ => .unsettled

/-- The prospect of a node that exposes a value. A namespace must be there before anybody asks. -/
def prospectOfLiteral (host : Host) : Literal → Prospect
  | .object _ => .module []
  | .named _ => .module []
  | .exportsOf label key =>
    match host.labels.get? label with
    | none => .missing
    | some compartment =>
      if (host.entryAt? ⟨compartment, key⟩).isSome then .module [] else .unsettled
  | _ => .missing

/-- The prospect of a node for which a hook gives this blueprint. -/
def prospectOfBlueprint (host : Host) (node : Node) : Blueprint → Prospect
  | .module _ bindings _ _ _ _ _ =>
    match bindings.mapM Binding.ofJson with
    | none => .missing
    | some bindings => host.prospectOfBindings node bindings
  | .document text =>
    match Json.parse text with
    | none => .missing
    | some _ => host.prospectOfBindings node [.exportName standardExport]
  | .text _ => host.prospectOfBindings node [.exportName standardExport]
  | .redirect key compartment =>
    .redirect ⟨(compartment.bind host.labels.get?).getD node.compartment, key⟩
  | .record _ => .unsettled
  | .exports value => host.prospectOfLiteral value

/-- The prospect of a node that only the synchronous hook can know. -/
def prospectNow (host : Host) (node : Node) : Prospect :=
  match (host.compartment node.compartment).nowHook with
  | none => .missing
  | some answers =>
    match answers.get? node.key with
    | none => .missing
    | some blueprint => host.prospectOfBlueprint node blueprint

/-- The prospect of a node about which the load hook gives this reply. -/
def prospectAfter (host : Host) (node : Node) : Reply → Prospect
  | .absent => host.prospectNow node
  | .fail _ => .missing
  | .describe blueprint => host.prospectOfBlueprint node blueprint

/-- What descriptors say about a node, if the load hook goes on to give its first reply. -/
def prospect (host : Host) (node : Node) : Prospect :=
  match (host.compartment node.compartment).table.get? node.key with
  | some descriptor => host.prospectOf node descriptor
  | none =>
    match (host.compartment node.compartment).loadHook with
    | none => host.prospectNow node
    | some answers => host.prospectAfter node (HookCall.answerTo answers node.key 0).reply

/-- The load hook gives the same reply about the node each time. -/
def RepliesAlike (host : Host) (node : Node) : Prop :=
  ∀ answers, (host.compartment node.compartment).loadHook = some answers → ∀ count,
    (HookCall.answerTo answers node.key count).reply = (HookCall.answerTo answers node.key 0).reply

/-- The closure of one node continues at another. -/
def Continues (host : Host) (node next : Node) : Prop :=
  next ∈ (host.prospect node).next

/-- The node is an alias of another. -/
def Points (host : Host) (node target : Node) : Prop :=
  host.prospect node = .redirect target

/-- The closure of one node comes to another, through requests and aliases. -/
def Reaches (host : Host) : Node → Node → Prop :=
  Relation.ReflTransGen host.Continues

/-- The aliases from one node on come to another. -/
def AliasesTo (host : Host) : Node → Node → Prop :=
  Relation.ReflTransGen host.Points

/-- The aliases from a node on, one at least, come to another. -/
def Passes (host : Host) : Node → Node → Prop :=
  Relation.TransGen host.Points

/-- The aliases from a node on run into a circle. -/
def Circles (host : Host) (node : Node) : Prop :=
  ∃ other, host.AliasesTo node other ∧ host.Passes other other

/-- The node has a valid descriptor, its specifiers resolve, and its chain of aliases ends. -/
def Loadable (host : Host) (node : Node) : Prop :=
  host.prospect node ≠ .missing ∧ ¬ host.Circles node

/-- The closure of the node comes to one that is not loadable. -/
def Doomed (host : Host) (node : Node) : Prop :=
  ∃ other, host.Reaches node other ∧ ¬ host.Loadable other

/-- Nodes that are closed under requests and aliases are all that can be reached from one of them. -/
theorem Reaches.mem_of_closed {nodes : List Node}
    (hclosed : ∀ node ∈ nodes, ∀ next ∈ (host.prospect node).next, next ∈ nodes) {root node : Node}
    (hroot : root ∈ nodes) (h : host.Reaches root node) : node ∈ nodes := by
  induction h with
  | refl => exact hroot
  | tail _ hnext ih => exact hclosed _ ih _ hnext

/-- A hook with at most one answer to each key gives the same reply each time. -/
theorem repliesAlike_of_single {node : Node}
    (h : ∀ answers, (host.compartment node.compartment).loadHook = some answers →
      ((answers.get? node.key).getD []).length ≤ 1) : host.RepliesAlike node := by
  intro answers hhook count
  have hlength := h answers hhook
  unfold HookCall.answerTo
  cases hget : answers.get? node.key with
  | none => rfl
  | some list =>
    rw [hget] at hlength
    match list, hlength with
    | [], _ => rfl
    | [answer], _ =>
      cases count with
      | zero => rfl
      | succ count => rfl

theorem Points.continues {node target : Node} (h : host.Points node target) :
    host.Continues node target := by
  unfold Continues
  rw [h]
  exact List.mem_cons_self

theorem AliasesTo.reaches {node target : Node} (h : host.AliasesTo node target) :
    host.Reaches node target :=
  Relation.ReflTransGen.lift id (fun _ _ hpoints => Points.continues hpoints) _ _ h

theorem Doomed.of_reaches {node other : Node} (hreaches : host.Reaches node other)
    (h : host.Doomed other) : host.Doomed node := by
  obtain ⟨last, hlast, hnot⟩ := h
  exact ⟨last, hreaches.trans hlast, hnot⟩

theorem Doomed.of_aliases {node target : Node} (haliases : host.AliasesTo node target)
    (h : host.Doomed target) : host.Doomed node :=
  h.of_reaches haliases.reaches

theorem Doomed.of_missing {node : Node} (h : host.prospect node = .missing) : host.Doomed node :=
  ⟨node, .refl, fun hloadable => hloadable.1 h⟩

theorem Doomed.of_circles {node : Node} (h : host.Circles node) : host.Doomed node :=
  ⟨node, .refl, fun hloadable => hloadable.2 h⟩

theorem Passes.circles {node : Node} (h : host.Passes node node) : host.Circles node :=
  ⟨node, .refl, h⟩

/-- A chain of aliases that is no circle where it begins runs into the circle further on. -/
theorem Circles.next {node target : Node} (h : host.Circles node) (hpoints : host.Points node target) :
    host.Circles target := by
  obtain ⟨other, haliases, hpasses⟩ := h
  have hsame {next : Node} (hnext : host.Points node next) : next = target :=
    Prospect.redirect.inj (hnext.symm.trans hpoints)
  rcases haliases.cases_head with rfl | ⟨next, hnext, hrest⟩
  · obtain ⟨next, hnext, hback⟩ := Relation.TransGen.head'_iff.1 hpasses
    obtain rfl := hsame hnext
    exact ⟨next, .refl, Relation.TransGen.tail' hback hpoints⟩
  · obtain rfl := hsame hnext
    exact ⟨other, hrest, hpasses⟩

/-- Aliases that come to a node that is none do not run into a circle. -/
theorem not_circles_of_aliases {node last : Node} (haliases : host.AliasesTo node last)
    (hlast : ∀ target, ¬ host.Points last target) : ¬ host.Circles node := by
  induction haliases using Relation.ReflTransGen.head_induction_on with
  | refl =>
    rintro ⟨other, haliases, hpasses⟩
    rcases haliases.cases_head with rfl | ⟨next, hnext, -⟩
    · obtain ⟨next, hnext, -⟩ := Relation.TransGen.head'_iff.1 hpasses
      exact hlast next hnext
    · exact hlast next hnext
  | head hpoints _ ih => exact fun hcircles => ih (hcircles.next hpoints)

end Host

/-- The keys that a compartment was told about, by its table or by its hooks. -/
def Compartment.mentions (compartment : Compartment) : List String :=
  compartment.table.names ++
    (((compartment.loadHook.map Table.names).getD []) ++
      ((compartment.nowHook.map Table.names).getD []))

namespace Host

variable {host : Host}

/-- Nodes for the keys of compartments that are numbered from `index` on. -/
def nodesFrom (index : Nat) : List (List String) → List Node
  | [] => []
  | keys :: rest => keys.map (Node.mk ⟨index⟩) ++ nodesFrom (index + 1) rest

/-- The nodes that compartments were told about. -/
def mentioned (host : Host) : List Node :=
  nodesFrom 0 (host.compartments.cells.toList.map Compartment.mentions)

theorem mem_nodesFrom : ∀ {mentions : List (List String)} (index : Nat) {place : Nat}
    {keys : List String} {key : String}, mentions[place]? = some keys → key ∈ keys →
      ⟨⟨index + place⟩, key⟩ ∈ nodesFrom index mentions
  | [], _, _, _, _, h, _ => nomatch h
  | first :: rest, index, 0, keys, key, h, hkey => by
    cases h
    exact List.mem_append_left _ (List.mem_map_of_mem hkey)
  | first :: rest, index, place + 1, keys, key, h, hkey => by
    have hrest := mem_nodesFrom (index + 1) (show rest[place]? = some keys from h) hkey
    rw [Nat.add_right_comm] at hrest
    exact List.mem_append_right _ hrest

theorem length_nodesFrom (total : Nat) : ∀ (cells : List Compartment) (index : Nat),
    total + (nodesFrom index (cells.map Compartment.mentions)).length ≤
      cells.foldl (fun total compartment =>
        total + compartment.table.size + compartment.memo.size +
          ((compartment.loadHook.map Table.size).getD 0) +
          ((compartment.nowHook.map Table.size).getD 0)) total := by
  intro cells
  induction cells generalizing total with
  | nil => exact fun _ => Nat.le_refl _
  | cons first rest ih =>
    intro index
    refine Nat.le_trans ?_ (ih _ (index + 1))
    have hhook {α : Type} (answers : Option (Table α)) :
        ((answers.map Table.names).getD []).length = (answers.map Table.size).getD 0 := by
      cases answers with
      | none => rfl
      | some answers => simp [Table.names, Table.size]
    have htable : first.table.names.length = first.table.size := by
      simp [Table.names, Table.size]
    have hlength : (nodesFrom index ((first :: rest).map Compartment.mentions)).length =
        first.mentions.length + (nodesFrom (index + 1) (rest.map Compartment.mentions)).length := by
      simp [nodesFrom]
    rw [hlength]
    simp only [Compartment.mentions, List.length_append, hhook, htable]
    omega

theorem length_mentioned (host : Host) : host.mentioned.length ≤ host.knownKeys := by
  have hlength := length_nodesFrom 2 host.compartments.cells.toList 0
  unfold mentioned knownKeys
  rw [← Array.foldl_toList]
  omega

theorem mem_mentioned {node : Node}
    (h : node.key ∈ (host.compartment node.compartment).mentions) : node ∈ host.mentioned := by
  obtain ⟨⟨index⟩, key⟩ := node
  unfold compartment at h
  cases hget : host.compartments.get? ⟨index⟩ with
  | none =>
    rw [hget] at h
    cases h
  | some found =>
    rw [hget] at h
    have hcell : (host.compartments.cells.toList.map Compartment.mentions)[index]? =
        some found.mentions := by
      rw [List.getElem?_map, Array.getElem?_toList]
      exact congrArg (Option.map Compartment.mentions) hget
    have hmem := mem_nodesFrom 0 hcell h
    rwa [Nat.zero_add] at hmem

/-- Only keys that their compartment was told about are aliases. -/
theorem Points.mentioned {node target : Node} (h : host.Points node target) :
    node ∈ host.mentioned := by
  refine mem_mentioned ?_
  unfold Points prospect at h
  unfold Compartment.mentions
  rw [List.mem_append, List.mem_append]
  have hnow (h : host.prospectNow node = .redirect target) :
      node.key ∈ ((host.compartment node.compartment).nowHook.map Table.names).getD [] := by
    unfold prospectNow at h
    split at h
    · cases h
    · rename_i answers hhook
      split at h
      · cases h
      · rename_i blueprint hget
        rw [hhook]
        exact Table.mem_names hget
  split at h
  · rename_i descriptor hget
    exact .inl (Table.mem_names hget)
  · split at h
    · exact .inr (.inr (hnow h))
    · rename_i answers hhook
      rw [hhook]
      cases hget : answers.get? node.key with
      | some list => exact .inr (.inl (Table.mem_names hget))
      | none =>
        unfold HookCall.answerTo at h
        rw [hget] at h
        exact .inr (.inr (hnow h))

end Host

end ModuleLoader
