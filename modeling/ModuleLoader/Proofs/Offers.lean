import ModuleLoader.Proofs.Inquiries
import ModuleLoader.Proofs.Prospects
/-!
Where descriptors come from: the static table of a compartment, a reply of its load hook, or an answer of
its synchronous hook. What the hooks offer is fixed; a call only decides which offer is taken up, and when.
-/

namespace ModuleLoader
set_option autoImplicit false

/-- A hook may describe the node so: the load hook in one of its replies, or the synchronous hook. -/
inductive Host.Offers (host : Host) (node : Node) (blueprint : Blueprint) : Prop where
  | onLoad {answers : Table (List HookAnswer)} {list : List HookAnswer} {answer : HookAnswer} :
      (host.compartment node.compartment).loadHook = some answers →
        answers.get? node.key = some list → answer ∈ list → answer.reply = .describe blueprint →
          Host.Offers host node blueprint
  | now {answers : Table Blueprint} : (host.compartment node.compartment).nowHook = some answers →
      answers.get? node.key = some blueprint → Host.Offers host node blueprint

/-- A reply that describes a node takes up an offer. -/
def Reply.Offered (host : Host) (node : Node) : Reply → Prop
  | .describe blueprint => host.Offers node blueprint
  | _ => True

/-- The reply that a call is going to give takes up an offer. -/
def CallStage.Offered (host : Host) (node : Node) : CallStage → Prop
  | .fresh => True
  | .atGate _ answer => answer.reply.Offered host node
  | .yielding _ reply => reply.Offered host node

/-- What a call is about. -/
def HookCall.node (call : HookCall) : Node :=
  ⟨call.home, call.key⟩

/-- The descriptor was just built, from an offer for the node. -/
def Host.TakesUp (host : Host) (node : Node) (descriptor : Descriptor) (host' : Host) : Prop :=
  ∃ blueprint before, host.Offers node blueprint ∧ Aside host before ∧
    Act.build (host.compartment node.compartment).label blueprint before = (.ok descriptor, host')

namespace Host

variable {host host' : Host} {node : Node}

theorem Offers.mentions {blueprint : Blueprint} (h : host.Offers node blueprint) :
    node.key ∈ (host.compartment node.compartment).mentions := by
  unfold Compartment.mentions
  rw [List.mem_append, List.mem_append]
  cases h with
  | onLoad hhook hget hmem hreply =>
    rw [hhook]
    exact .inr (.inl (Table.mem_names hget))
  | now hhook hget =>
    rw [hhook]
    exact .inr (.inr (Table.mem_names hget))

theorem Offers.congr {blueprint : Blueprint} (h : host.Offers node blueprint)
    (hload : (host'.compartment node.compartment).loadHook =
      (host.compartment node.compartment).loadHook)
    (hnow : (host'.compartment node.compartment).nowHook =
      (host.compartment node.compartment).nowHook) : host'.Offers node blueprint := by
  cases h with
  | onLoad hhook hget hmem hreply => exact .onLoad (hload.trans hhook) hget hmem hreply
  | now hhook hget => exact .now (hnow.trans hhook) hget

theorem offers_aside (h : Aside host host') {blueprint : Blueprint} :
    host'.Offers node blueprint ↔ host.Offers node blueprint := by
  obtain ⟨_, _, _, _, _, _, rfl⟩ := h
  exact ⟨fun hoffers => hoffers.congr rfl rfl, fun hoffers => hoffers.congr rfl rfl⟩

/-- Taking up an offer makes objects, and nothing else. -/
theorem TakesUp.aside {descriptor : Descriptor} (h : host.TakesUp node descriptor host') :
    Aside host host' := by
  obtain ⟨blueprint, before, -, haside, hbuild⟩ := h
  have hbuilt := Act.build_aside (host.compartment node.compartment).label blueprint before
  rw [hbuild] at hbuilt
  exact haside.trans hbuilt

end Host

section
variable {host host' : Host} {node : Node}

theorem Reply.Offered.mono {reply : Reply} (h : reply.Offered host node)
    (himp : ∀ blueprint, host.Offers node blueprint → host'.Offers node blueprint) :
    reply.Offered host' node := by
  cases reply with
  | absent => trivial
  | fail reason => trivial
  | describe blueprint => exact himp blueprint h

theorem CallStage.Offered.mono {stage : CallStage} (h : stage.Offered host node)
    (himp : ∀ blueprint, host.Offers node blueprint → host'.Offers node blueprint) :
    stage.Offered host' node := by
  cases stage with
  | fresh => trivial
  | atGate gate answer => exact Reply.Offered.mono h himp
  | yielding left reply => exact Reply.Offered.mono h himp

end

/-- Each answer of a load hook about a key that is no default takes up an offer. -/
theorem HookCall.answerTo_offered {host : Host} {node : Node} (count : Nat) :
    (answerTo (((host.compartment node.compartment).loadHook).getD .empty) node.key count).reply.Offered
      host node := by
  have hdefault : (default : HookAnswer).reply.Offered host node := trivial
  unfold answerTo
  split
  · exact hdefault
  · rename_i list hget
    cases hhook : (host.compartment node.compartment).loadHook with
    | none =>
      rw [hhook] at hget
      cases hget
    | some answers =>
      rw [hhook] at hget
      have hoffers (answer : HookAnswer) (hmem : answer ∈ list) : answer.reply.Offered host node := by
        unfold Reply.Offered
        split
        · rename_i blueprint hreply
          exact .onLoad hhook hget hmem hreply
        · trivial
      cases hlist : list[count]? with
      | some answer => exact hoffers answer (List.mem_of_getElem? hlist)
      | none =>
        cases hlast : list.getLast? with
        | none => exact hdefault
        | some answer => exact hoffers answer (List.mem_of_getLast? hlast)

namespace Act

/-- The synchronous hook gives what it offers. -/
theorem askNow_takesUp (host : Host) (node : Node) :
    After host (askNow node) fun result host' =>
      ∀ descriptor, result = some descriptor → host.TakesUp node descriptor host' := by
  unfold askNow
  rw [after_bind, after_get]
  dsimp only
  split
  · rintro descriptor ⟨⟩
  · rename_i answers hanswers
    have hnote : After host (note (.nowHookCalled (host.compartment node.compartment).label node.key))
        fun _ noted => Aside host noted := note_aside _ host
    rw [after_bind]
    refine hnote.mono fun _ noted haside => ?_
    split
    · rintro descriptor ⟨⟩
    · rename_i blueprint hget
      have hbuild : After noted (build (host.compartment node.compartment).label blueprint)
          fun result built => build (host.compartment node.compartment).label blueprint noted =
            (result, built) := rfl
      rw [after_bind]
      refine hbuild.mono fun result built hbuild => ?_
      cases result with
      | error failure => rintro descriptor ⟨⟩
      | ok found =>
        rintro descriptor ⟨⟩
        exact ⟨blueprint, noted, .now hanswers hget, haside, hbuild⟩

theorem describeNow_takesUp (host : Host) (node : Node) :
    After host (describeNow node) fun result host' =>
      ∀ descriptor, result = .ok descriptor → host.TakesUp node descriptor host' := by
  unfold describeNow
  rw [after_bind]
  refine (askNow_takesUp host node).mono fun result host' h => ?_
  cases result with
  | none => rintro descriptor ⟨⟩
  | some found =>
    rintro descriptor ⟨⟩
    exact h found rfl

end Act

namespace HookCall

/-- A step of a call goes on to a reply that takes up an offer, or takes it up. -/
def Step (host : Host) (call : HookCall) (result : Poll HookCall HookResult) (host' : Host) : Prop :=
  match result with
  | .pending next => next.node = call.node ∧ next.stage.Offered host call.node
  | .ready result => ∀ descriptor, result = .ok (some descriptor) →
      host.TakesUp call.node descriptor host'

variable {host : Host} {call : HookCall} {reply : Reply}

theorem Step.aside {before host' : Host} {result : Poll HookCall HookResult}
    (haside : Aside host before) (h : Step before call result host') : Step host call result host' := by
  have hoffers (blueprint : Blueprint) : before.Offers call.node blueprint → host.Offers call.node blueprint :=
    (Host.offers_aside haside).1
  cases result with
  | pending next => exact ⟨h.1, h.2.mono hoffers⟩
  | ready result =>
    intro descriptor hresult
    obtain ⟨blueprint, middle, hoffer, hmiddle, hbuild⟩ := h descriptor hresult
    refine ⟨blueprint, middle, hoffers blueprint hoffer, haside.trans hmiddle, ?_⟩
    obtain ⟨_, _, _, _, _, _, rfl⟩ := haside
    exact hbuild

theorem conclude_takesUp (host : Host) (call : HookCall) {reply : Reply}
    (h : reply.Offered host call.node) :
    After host (call.conclude reply) fun result host' =>
      ∀ descriptor, result = .ok (some descriptor) → host.TakesUp call.node descriptor host' := by
  unfold conclude
  rw [after_bind, after_get, after_bind]
  have hnote : After host (Act.note (.hookAnswered (host.compartment call.home).label call.key))
      fun _ noted => Aside host noted := Act.note_aside _ host
  refine hnote.mono fun _ noted haside => ?_
  cases reply with
  | absent => rintro descriptor ⟨⟩
  | fail reason => rintro descriptor ⟨⟩
  | describe blueprint =>
    have hbuild : After noted (Act.build (host.compartment call.home).label blueprint)
        fun result built => Act.build (host.compartment call.home).label blueprint noted =
          (result, built) := rfl
    dsimp only
    rw [after_bind]
    refine hbuild.mono fun result built hbuild => ?_
    cases result with
    | error failure => rintro descriptor ⟨⟩
    | ok found =>
      rintro descriptor ⟨⟩
      exact ⟨blueprint, noted, h, haside, hbuild⟩

theorem giveWay_step (h : reply.Offered host call.node) (left : Nat) (waker : Waker) :
    After host (call.giveWay left reply waker) (Step host call) := by
  unfold giveWay
  cases left with
  | zero =>
    rw [after_bind]
    exact conclude_takesUp host call h
  | succ left => exact ⟨rfl, h⟩

theorem drive_step (h : call.stage.Offered host call.node) (waker : Waker) :
    After host (call.drive waker) (Step host call) := by
  unfold drive
  cases hstage : call.stage with
  | fresh =>
    dsimp only
    rw [after_bind, after_get, after_bind]
    have hnote : After host (Act.note (.hookCalled (host.compartment call.home).label call.key))
        fun _ noted => Aside host noted := Act.note_aside _ host
    refine hnote.mono fun _ noted haside => ?_
    rw [after_bind]
    have hcount : After noted (Act.countCall (host.compartment call.home).label call.key)
        fun _ counted => Aside noted counted := Act.countCall_aside _ _ noted
    refine hcount.mono fun count counted haside' => ?_
    have hcounted := haside.trans haside'
    have hoffered : (answerTo ((host.compartment call.home).loadHook.getD .empty) call.key
        count).reply.Offered counted call.node :=
      Reply.Offered.mono (answerTo_offered count) fun _ => (Host.offers_aside hcounted).2
    revert hoffered
    generalize answerTo ((host.compartment call.home).loadHook.getD .empty) call.key count = answer
    intro hoffered
    refine After.mono ?_ fun _ _ => Step.aside hcounted
    split
    · exact giveWay_step hoffered _ waker
    · rename_i gate _
      rw [after_bind]
      have hpass : After counted (Act.passGate gate waker) fun _ passed => Aside counted passed :=
        Act.passGate_aside _ _ counted
      refine hpass.mono fun isOpen passed haside => ?_
      refine After.mono ?_ fun _ _ => Step.aside haside
      have hoffered := hoffered.mono fun _ => (Host.offers_aside haside).2
      cases isOpen with
      | true => exact giveWay_step hoffered _ waker
      | false => exact ⟨rfl, hoffered⟩
  | atGate gate answer =>
    rw [hstage] at h
    dsimp only
    rw [after_bind]
    have hsame : After host (Act.isOpen gate) fun _ after => after = host := rfl
    refine hsame.mono fun isOpen after hsame => ?_
    subst hsame
    cases isOpen with
    | true => exact giveWay_step h _ waker
    | false => exact ⟨rfl, hstage ▸ h⟩
  | yielding left reply =>
    rw [hstage] at h
    exact giveWay_step h left waker

end HookCall

end ModuleLoader
