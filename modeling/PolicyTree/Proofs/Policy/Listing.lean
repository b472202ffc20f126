import PolicyTree.Proofs.Policy.Replacing

namespace PolicyTree

theorem Desk.Turns.isPending {saved : Saved} {desk desk' : Desk} (h : desk.session.isPending)
    (ht : desk.Turns saved desk') : desk'.session.isPending := by
  induction ht
  case refl => exact h
  case tail t hi =>
    cases t
    case take => exact hi
    case copy => rfl
    case add  => rfl
    case edit => rfl

theorem Desk.Turns.faults_eq {saved : Saved} {desk desk' : Desk} (ht : desk.Turns saved desk') :
    desk'.session.faults = desk.session.faults := by
  induction ht
  case refl => rfl
  case tail t hi => cases t <;> exact hi

namespace SessionM.Ensures

variable {saved : Saved} {owner policy node : NodeHandle} {nodes : List Node} {n : Node}
  {name path : String} {value : Value} {e : Entry} {p : Policy}

theorem listed_setProperty :
    Ensures saved
      (Desk.Shows saved fun s =>
        ∃ ids, s.Lists saved.types owner.id policy.id (ids ++ [node.id]) (nodes ++ [n]))
      (setProperty node name value)
      (fun _ => Desk.Shows saved fun s =>
        ∃ ids, s.Lists saved.types owner.id policy.id (ids ++ [node.id])
          (nodes ++ [{ n with properties := n.properties.insert name value }]))
      fun _ => True :=
  shows_setProperty fun _ _ wf ⟨ids, h⟩ he => ⟨ids, h.setProperty wf he⟩

theorem listed_storeEntry :
    Ensures saved
      (Desk.Shows saved fun s => ∃ ids, s.Lists saved.types owner.id policy.id ids nodes)
      (Policy.storeEntry policy name e)
      (fun _ => Desk.Shows saved fun s =>
        ∃ ids, s.Lists saved.types owner.id policy.id ids (nodes ++ [e.node policy.id name]))
      fun _ => True := by
  let new : Node :=
    .new name (some policy.id) (if e.isAllow then Policy.allowType else Policy.denyType)
  refine .bind (shows_addNode (Q := fun node s =>
      ∃ ids, s.Lists saved.types owner.id policy.id (ids ++ [node.id]) (nodes ++ [new]))
    fun s s' node wf ⟨ids, h⟩ ha => ⟨ids, h.add wf ha⟩) fun node => ?_
  refine .bind listed_setProperty fun _ => .bind listed_setProperty fun _ => ?_
  let start := (new.properties.insert Policy.principalProperty (.string e.principal)).insert
    Policy.privilegesProperty (.names (e.privileges.map (·.name)))
  refine Ensures.weaken (.forM_done (P := fun done => Desk.Shows saved fun s =>
      ∃ ids, s.Lists saved.types owner.id policy.id (ids ++ [node.id]) (nodes ++ [{ new with
        properties := done.foldl (fun properties r => properties.insert r.1 r.2) start }]))
    fun done r rest hr => ?_) (fun _ => id) (fun _ _ hd => ?_) fun _ => id
  · simp only [List.foldl_append, List.foldl_cons, List.foldl_nil]
    exact listed_setProperty
  · have ⟨ids, h⟩ := hd.tree
    exact ⟨hd.orderly, _, h⟩

theorem listed_entries :
    Ensures saved (Desk.Shows saved fun s => ∃ ids, s.Lists saved.types owner.id policy.id ids [])
      (((Policy.nodeNames (p.entries.map (·.isAllow))).zip p.entries).forM fun (name, e) =>
        Policy.storeEntry policy name e)
      (fun _ => Desk.Shows saved fun s =>
        ∃ ids, s.Lists saved.types owner.id policy.id ids (p.nodes policy.id))
      fun _ => True := by
  unfold Policy.nodes
  refine .forM_done (P := fun (done : List (String × Entry)) => Desk.Shows saved fun s => ∃ ids,
      s.Lists saved.types owner.id policy.id ids (done.map fun (name, e) => e.node policy.id name))
    fun done b rest _ => ?_
  rw [List.map_append]
  exact listed_storeEntry

theorem listed_storeAnew :
    Ensures saved
      (Desk.Shows saved fun s => Policy.mixin ∈ s.effectiveTypes saved.types p.owner.id)
      (storeAnew p)
      (fun _ => Desk.Shows saved fun s =>
        ∃ policy ids, s.Lists saved.types p.owner.id policy ids (p.nodes policy))
      fun _ => True := by
  refine .bind (shows_addNode (Q := fun policy s =>
      ∃ ids, s.Lists saved.types p.owner.id policy.id ids [])
    fun s s' policy wf controlled ha => ⟨[], Store.lists_of_added ha controlled⟩) fun policy => ?_
  exact listed_entries.weaken (fun _ => id)
    (fun _ _ hd => ⟨hd.orderly, policy.id, hd.tree⟩) fun _ => id

theorem listed_replaceFormer :
    Ensures saved
      (Desk.Shows saved fun s => Policy.mixin ∈ s.effectiveTypes saved.types p.owner.id)
      (replaceFormer p)
      (fun _ => Desk.Shows saved fun s =>
        ∃ policy ids, s.Lists saved.types p.owner.id policy ids (p.nodes policy))
      fun _ => True := by
  refine .bind (shows_ask (Q := fun former s =>
    Policy.mixin ∈ s.effectiveTypes saved.types p.owner.id ∧ ∀ f, former = some f →
      s.child? p.owner.id Policy.nodeName = some f.id) fun d hd former hf =>
        ⟨hd.tree, fun f hsome => child_of_view (hsome ▸ hf)⟩) fun former => ?_
  cases former
  case none =>
    exact weaken listed_storeAnew (fun _ hd => ⟨hd.orderly, hd.tree.1⟩) (fun _ _ => id) fun _ => id
  case some f =>
    exact .bind (shows_removeNode fun s s' q wf hk hr => (hr.of_child wf (hk.2 f rfl) hk.1).1)
      fun _ => listed_storeAnew

-- A policy that is stored is stored as a whole.
theorem listed_store :
    Ensures saved (Desk.Shows saved fun _ => True) p.store
      (fun _ => Desk.Shows saved fun s =>
        ∃ policy ids, s.Lists saved.types p.owner.id policy ids (p.nodes policy))
      fun _ => True := by
  refine .bind (shows_ask (Q := fun (isControlled : Bool) s => isControlled →
    Policy.mixin ∈ s.effectiveTypes saved.types p.owner.id)
    fun d hd isControlled hc => (isType_of_view hc).2.1) fun isControlled => ?_
  cases isControlled
  case true =>
    exact weaken listed_replaceFormer (fun _ hd => ⟨hd.orderly, hd.tree rfl⟩) (fun _ _ => id)
      fun _ => id
  case false =>
    exact .bind (shows_addMixin fun _ _ _ _ hs => (Store.edited_of_addMixin hs).mem_effectiveTypes)
      fun _ => listed_replaceFormer

theorem pending_storeAnew :
    Ensures saved (fun _ => True) (storeAnew p) (fun _ d => d.session.isPending) fun _ => True := by
  have entries {policy : NodeHandle} : Composed
      (((Policy.nodeNames (p.entries.map (·.isAllow))).zip p.entries).forM fun (name, e) =>
        Policy.storeEntry policy name e) := .forM fun _ => composed_storeEntry
  refine .bind (R := fun _ d => d.session.isPending) ?_ fun policy =>
    (entries.ensures fun hd ht => ht.isPending hd).weaken (fun _ => id) (fun _ _ => id)
      fun _ _ => trivial
  exact .bind (R := fun _ _ => True) (.takeId fun _ _ => trivial) fun id =>
    .write (fun _ _ _ _ _ => rfl) fun _ _ => ⟨trivial, trivial⟩

theorem pending_store :
    Ensures saved (fun _ => True) p.store (fun _ d => d.session.isPending) fun _ => True := by
  have any {α ε : Type} {work : SessionM ε α} (hw : Composed work) :
      Ensures saved (fun _ => True) work (fun _ _ => True) fun _ => True :=
    hw.ensures fun _ _ => trivial
  have replaced : Ensures saved (fun _ => True) (replaceFormer p)
      (fun _ d => d.session.isPending) fun _ => True := by
    refine .bind (any (.ask _)) fun former => ?_
    cases former
    case none   => exact pending_storeAnew
    case some f => exact .bind (any (.removeNode f)) fun _ => pending_storeAnew
  refine .bind (any (.ask _)) fun isControlled => ?_
  cases isControlled
  case true  => exact replaced
  case false => exact .bind (any (.addMixin ..)) fun _ => replaced

-- Setting a policy asks for its owner before it stores it.
theorem setPolicy_of_store {P : Desk → Prop} {Q : Unit → Desk → Prop}
    (h : Ensures saved P p.store Q fun _ => True) :
    Ensures saved P (Editor.setPolicy path p) Q fun _ => True := by
  refine .bind (R := fun _ => P) (.ask (fun _ hd _ _ => hd) fun _ _ => trivial) fun o => ?_
  split
  case isTrue  => exact .bind (R := fun _ _ => False) (.throw fun _ _ => trivial) fun _ _ => nofun
  case isFalse => exact .lift h

end SessionM.Ensures

end PolicyTree
