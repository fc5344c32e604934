import ModuleLoader.Signal.Driving
import ModuleLoader.Proofs.Quiet
/-!
What a look at shared work comes to, and what the turns of a pool come to.

Both rules leave out the signals: whatever is told, and whoever takes a seat, is a change aside.
-/

namespace ModuleLoader
set_option autoImplicit false

namespace Shelf

variable {k : Noun} {work output : Type} {shelf : Shelf k work output} {host : Host}

theorem sit_aside (bell : Ref .bell) (watch : Watch k) (waker : Waker) :
    (sit bell watch waker).IsAside :=
  .getBind fun _ => .bind (Act.changeSeats_aside _ _) fun _ => .pure _

theorem forget_aside (watch : Watch k) : (shelf.forget watch).IsAside := by
  refine .getBind fun host => ?_
  split
  · exact Act.changeSeats_aside _ _
  · exact .pure _

/-- The end of shared work is the storing of its result, and what is aside. -/
theorem finish_aside (ref : Ref k) (bell : Ref .bell) (result : output) :
    Aside (shelf.put host ref ⟨bell, .done result⟩) (shelf.finish ref bell result host).2 := by
  change Aside _ ((do
    let wakers := ((← get).board.seats bell).wakers
    Act.changeSeats bell fun _ => Seats.done
    Act.tell wakers : Act Unit) (shelf.put host ref ⟨bell, .done result⟩)).2
  exact Act.IsAside.getBind (fun _ => .bind (Act.changeSeats_aside _ _)
    fun _ => Act.tell_aside _) _

/-- A look at shared work finds a result, or finds somebody driving, or drives. -/
theorem after_poll {drive : work → Waker → Act (Poll work output)} {watch : Watch k}
    {waker : Waker} {post : Poll (Watch k) output → Host → Prop}
    (missing : shelf.get? host watch.job = none → post (.pending watch) host)
    (done : ∀ bell result, shelf.get? host watch.job = some ⟨bell, .done result⟩ →
      post (.ready result) host)
    (driven : ∀ bell work seat host', shelf.get? host watch.job = some ⟨bell, .driven work⟩ →
      Aside host host' → post (.pending { watch with seat }) host')
    (idle : ∀ bell work seat host', shelf.get? host watch.job = some ⟨bell, .idle work⟩ →
      Aside host host' →
      After (shelf.put host' watch.job ⟨bell, .driven work⟩) (drive work (.bell bell))
        fun result after => match result with
          | .pending work =>
            post (.pending { watch with seat }) (shelf.put after watch.job ⟨bell, .idle work⟩)
          | .ready result =>
            ∀ last, Aside (shelf.put after watch.job ⟨bell, .done result⟩) last →
              post (.ready result) last) :
    After host (shelf.poll drive watch waker) post := by
  unfold poll
  rw [after_bind, after_get]
  cases hget : shelf.get? host watch.job with
  | none => exact missing hget
  | some shared =>
    obtain ⟨bell, progress⟩ := shared
    cases progress with
    | done result => exact done bell result hget
    | driven work =>
      exact driven bell work _ _ hget (sit_aside bell watch waker host)
    | idle work =>
      have hdrive := idle bell work (sit bell watch waker host).1.seat _ hget
        (sit_aside bell watch waker host)
      dsimp only
      rw [after_bind]
      have hsit : After host (sit bell watch waker) fun result host' =>
          result = { watch with seat := (sit bell watch waker host).1.seat } ∧
            host' = (sit bell watch waker host).2 := ⟨rfl, rfl⟩
      refine hsit.mono ?_
      rintro _ _ ⟨rfl, rfl⟩
      rw [after_bind, record, after_modify, after_bind]
      refine hdrive.mono fun result after hpost => ?_
      cases result with
      | pending work => exact hpost
      | ready result => exact hpost _ (finish_aside watch.job bell result)

end Shelf

/-- Of pairs with distinct names, at most one has a given name. -/
theorem pair_unique {α β : Type} {pairs : List (α × β)} (h : (pairs.map Prod.fst).Nodup) {name : α}
    {value value' : β} (hmem : (name, value) ∈ pairs) (hmem' : (name, value') ∈ pairs) :
    value = value' := by
  induction pairs with
  | nil => cases hmem
  | cons first rest ih =>
    obtain ⟨hfirst, hrest⟩ := List.nodup_cons.1 h
    have hout (other : β) (hother : (name, other) ∈ rest) : name ≠ first.1 :=
      fun heq => hfirst (heq ▸ List.mem_map_of_mem (f := Prod.fst) hother)
    rcases List.mem_cons.1 hmem with heq | hmem
    · rcases List.mem_cons.1 hmem' with heq' | hmem'
      · exact (Prod.mk.inj (heq.trans heq'.symm)).2
      · exact absurd (congrArg Prod.fst heq) (hout value' hmem')
    · rcases List.mem_cons.1 hmem' with heq' | hmem'
      · exact absurd (congrArg Prod.fst heq') (hout value hmem)
      · exact ih hrest hmem hmem'

namespace Pool

variable {member output : Type} {host : Host}

theorem close_aside (ref : Ref .pool) : (close ref).IsAside :=
  Act.changePool_aside _ _

/-- What holds of the members of a pool holds after their turns, if each turn keeps it: a member that
goes on stays, and one that finishes leaves. -/
theorem after_turns {poll : member → Waker → Act (Poll member output)} {ref : Ref .pool}
    {waker : Waker} {holds : List (Nat × member) → Host → Prop}
    {post : Next member output → Host → Prop}
    (aside : ∀ members before after, Aside before after → holds members before →
      holds members after)
    (turn : ∀ members index work before, holds members before → (index, work) ∈ members →
      After before (poll work (.member ref index)) fun result after => match result with
        | .pending work =>
          holds ((index, work) :: members.filter fun member => member.1 ≠ index) after
        | .ready result => ∀ last, Aside after last →
          post (.finished result (members.filter fun member => member.1 ≠ index)) last)
    (pending : ∀ members after, holds members after → post (.pending members) after)
    (exhausted : ∀ after, holds [] after → post .exhausted after) :
    ∀ (left stirred : Nat) (members : List (Nat × member)) (before : Host),
      holds members before → After before (turns poll ref waker left stirred members) post := by
  intro left
  induction left with
  | zero =>
    intro stirred members before h
    unfold turns
    cases members with
    | nil => exact exhausted before h
    | cons first rest => exact pending _ before h
  | succ left ih =>
    intro stirred members before h
    unfold turns
    rw [after_bind, after_get]
    split
    · cases members with
      | nil => exact exhausted before h
      | cons first rest => exact pending _ before h
    · rename_i index pool _
      rw [after_bind]
      have haside : After before (Act.changePool ref fun _ => pool) fun _ after =>
          Aside before after := Act.changePool_aside ref (fun _ => pool) before
      refine haside.mono ?_
      intro _ told htold
      have htold := aside members before told htold h
      split
      · exact ih stirred members told htold
      · rename_i found work hfind
        have hmem := List.mem_of_find?_eq_some hfind
        have hindex : found = index := by simpa using List.find?_some hfind
        subst hindex
        rw [after_bind]
        refine (turn members _ work told htold hmem).mono fun result after hafter => ?_
        cases result with
        | ready result =>
          exact hafter _ (Act.changePool_aside ref _ after)
        | pending work =>
          rw [after_bind, after_get]
          generalize (if ((after.board.pool ref).stirred.contains found) = true then stirred + 1
            else stirred) = count
          dsimp only
          split
          · rw [after_bind]
            exact pending _ _ (aside _ _ _ (Act.tell_aside [waker] after) hafter)
          · exact ih _ _ after hafter

/-- What holds of the members of a pool holds after a look for one that finishes. -/
theorem after_next {poll : member → Waker → Act (Poll member output)} {ref : Ref .pool}
    {waker : Waker} {holds : List (Nat × member) → Host → Prop}
    {post : Next member output → Host → Prop} {members : List (Nat × member)}
    (aside : ∀ members before after, Aside before after → holds members before →
      holds members after)
    (turn : ∀ members index work before, holds members before → (index, work) ∈ members →
      After before (poll work (.member ref index)) fun result after => match result with
        | .pending work =>
          holds ((index, work) :: members.filter fun member => member.1 ≠ index) after
        | .ready result => ∀ last, Aside after last →
          post (.finished result (members.filter fun member => member.1 ≠ index)) last)
    (pending : ∀ members after, holds members after → post (.pending members) after)
    (exhausted : ∀ after, holds [] after → post .exhausted after)
    (h : holds members host) : After host (next poll ref waker members) post :=
  after_turns aside turn pending exhausted members.length 0 members _
    (aside members host _ (Act.changePool_aside ref _ host) h)

end Pool

end ModuleLoader
