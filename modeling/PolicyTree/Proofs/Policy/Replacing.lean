import PolicyTree.Proofs.Policy.Framing

namespace PolicyTree

-- An orderly session, which may misbehave, with something to be said of its tree.
structure Desk.Shows (saved : Saved) (K : Store → Prop) (desk : Desk) : Prop where
  orderly : desk.Orderly saved
  tree    : K (desk.store saved)

namespace SessionM

variable {α ε : Type} {saved : Saved} {K L : Store → Prop} {node parent owner policy : NodeHandle}
  {name type path : String} {s base : Store} {p : Policy} {e : Entry}

-- What is answered about a tree is so, whatever the session keeps back.
theorem resolve_of_view {desk : Desk} {o : NodeHandle}
    (h : (desk.session.view saved).resolve path = .ok (some o)) :
    ((desk.store saved).view saved.types).resolve path = .ok (some o) := by
  rw [← Desk.store_eq]
  exact Faults.of_find h

namespace Ensures

theorem shows_ask {question : TreeView → Except ε α} {Q : α → Store → Prop}
    (h : ∀ desk : Desk, desk.Shows saved K → ∀ a, question (desk.session.view saved) = .ok a →
      Q a (desk.store saved)) :
    Ensures saved (Desk.Shows saved K) (SessionM.ask question) (fun a => Desk.Shows saved (Q a))
      fun _ => True :=
  .ask (fun d hd a ha => ⟨hd.orderly, h d hd a ha⟩) fun _ _ => trivial

-- All work keeps a session orderly, so only the tree is left to be looked at.
theorem orderly {work : SessionM ε α} {Q : α → Desk → Prop} {E : Desk → Prop}
    (h : Ensures saved (Desk.Shows saved K) work Q E) (hw : Composed work) :
    Ensures saved (Desk.Shows saved K) work (fun a d => d.Orderly saved ∧ Q a d)
      fun d => d.Orderly saved ∧ E d := by
  have kept : Ensures saved (Desk.Orderly saved) work _ _ := hw.ensures fun hd ht => hd.turns ht
  exact (kept.weaken (fun _ hd => hd.orderly) (fun _ _ => id) fun _ => id).and h

theorem shows_of_tree {work : SessionM ε α} {Q : α → Store → Prop} (hw : Composed work)
    (h : Ensures saved (Desk.Shows saved K) work (fun a d => Q a (d.store saved)) fun _ => True) :
    Ensures saved (Desk.Shows saved K) work (fun a => Desk.Shows saved (Q a)) fun _ => True :=
  (h.orderly hw).weaken (fun _ => id) (fun _ _ hd => ⟨hd.1, hd.2⟩) fun _ _ => trivial

theorem shows_write {call : Call} {change : Store → Except TreeError (α × Store)}
    {Q : α → Store → Prop} (hw : Composed (SessionM.write call change))
    (h : ∀ s, s.WellFormed → K s → ∀ a s', change s = .ok (a, s') → Q a s') :
    Ensures saved (Desk.Shows saved K) (SessionM.write call change)
      (fun a => Desk.Shows saved (Q a)) fun _ => True :=
  shows_of_tree hw <| .write (fun _ hd a s' hs => h _ hd.orderly.wellFormed hd.tree a s' hs)
    fun _ _ => ⟨trivial, trivial⟩

theorem shows_addMixin {mixin : String}
    (h : ∀ s s', s.WellFormed → K s → s.addMixin node.id mixin = .ok s' → L s') :
    Ensures saved (Desk.Shows saved K) (addMixin node mixin) (fun _ => Desk.Shows saved L)
      fun _ => True := by
  refine shows_write (.addMixin ..) fun s wf hk _ s' hs => ?_
  exact h s s' wf hk (unit_eq_ok_iff.1 hs)

theorem shows_setProperty {value : Value} (h : ∀ s s', s.WellFormed → K s →
      Store.Edited s s' node.id (fun n => { n with properties := n.properties.insert name value }) →
      L s') :
    Ensures saved (Desk.Shows saved K) (setProperty node name value) (fun _ => Desk.Shows saved L)
      fun _ => True := by
  refine shows_write (.setProperty ..) fun s wf hk _ s' hs => ?_
  exact h s s' wf hk (Store.edited_of_setProperty (unit_eq_ok_iff.1 hs))

theorem shows_removeNode
    (h : ∀ s s' p, s.WellFormed → K s → Store.Removed s s' node.id p → L s') :
    Ensures saved (Desk.Shows saved K) (removeNode node) (fun _ => Desk.Shows saved L)
      fun _ => True := by
  refine shows_write (.removeNode _) fun s wf hk _ s' hs => ?_
  obtain ⟨p, removed⟩ := Store.removed_of_removeNode (unit_eq_ok_iff.1 hs)
  exact h s s' p wf hk removed

theorem shows_addNode {Q : NodeHandle → Store → Prop}
    (h : ∀ s s' node, s.WellFormed → K s → Store.Added s s' node.id parent.id name type →
      Q node s') :
    Ensures saved (Desk.Shows saved K) (addNode parent name type)
      (fun node => Desk.Shows saved (Q node)) fun _ => True := by
  refine shows_of_tree (.addNode ..) <| .bind
    (R := fun id d => Desk.Shows saved K d ∧ (d.store saved).nodes[id]? = none)
    (.takeId fun d hd => ⟨⟨hd.orderly.turn .take, hd.tree⟩, hd.orderly.fresh⟩) fun id =>
    .write (fun d hd node s' hs => ?_) fun _ _ => ⟨trivial, trivial⟩
  obtain ⟨hd, fresh⟩ := hd
  have ⟨hs, hnode⟩ := Store.new_eq_ok_iff.1 hs
  obtain rfl := Store.id_of_getHandle hnode
  exact h _ s' node hd.orderly.wellFormed hd.tree (Store.added_of_addNode fresh hs)

-- The entries of a new policy are new, whatever is known of the tree that it came to.
theorem renewed_storeEntry {R : Store → Prop} :
    Ensures saved (Desk.Shows saved fun s => ∃ base, R base ∧ base.Renewed s owner.id policy.id)
      (Policy.storeEntry policy name e)
      (fun _ => Desk.Shows saved fun s => ∃ base, R base ∧ base.Renewed s owner.id policy.id)
      fun _ => True := by
  let Made (node : NodeHandle) (s : Store) :=
    ∃ base, node.id ∉ base.nodes ∧ R base ∧ base.Renewed s owner.id policy.id
  have set {node : NodeHandle} {property : String} {value : Value} :
      Ensures saved (Desk.Shows saved (Made node)) (setProperty node property value)
        (fun _ => Desk.Shows saved (Made node)) fun _ => True := by
    refine shows_setProperty fun s s' _ hk he => ?_
    have ⟨base, fresh, hr, renewed⟩ := hk
    exact ⟨base, fresh, hr, renewed.edit he fresh⟩
  refine .bind (R := fun node => Desk.Shows saved (Made node))
    (shows_addNode fun s s' node wf hk ha => ?_) fun node =>
    .bind set fun _ => .bind set fun _ => ?_
  · have ⟨base, hr, renewed⟩ := hk
    refine ⟨base, fun hx => ?_, hr, renewed.add ha⟩
    have ⟨b, hb⟩ := Store.mem_nodes_iff.1 hx
    have kept := renewed.kept hx
    rw [ha.fresh, hb] at kept
    exact nomatch kept
  · refine weaken (.forM fun _ _ => set) (fun _ => id) (fun _ _ hd => ⟨hd.orderly, ?_⟩) fun _ => id
    have ⟨base, _, hk⟩ := hd.tree
    exact ⟨base, hk⟩

-- The new policy finds the place of the former one free.
theorem rewritten_storeAnew {mixins : List String} :
    Ensures saved
      (Desk.Shows saved fun base => base.child? p.owner.id Policy.nodeName = none →
        s.Cleared base p.owner.id mixins)
      (storeAnew p)
      (fun _ => Desk.Shows saved (s.Rewritten · p.owner.id mixins)) fun _ => True := by
  refine .bind (shows_addNode (Q := fun policy s' =>
    ∃ base, (base.WellFormed ∧ s.Cleared base p.owner.id mixins) ∧
      base.Renewed s' p.owner.id policy.id)
    fun base s' policy wf hk ha => ⟨base, ⟨wf, hk ha.free⟩, Store.renewed_of_added ha⟩)
    fun policy => ?_
  refine weaken (.forM fun _ _ => renewed_storeEntry) (fun _ => id)
    (fun _ _ hd => ⟨hd.orderly, ?_⟩) fun _ => id
  have ⟨base, ⟨wf, cleared⟩, renewed⟩ := hd.tree
  exact ⟨base, policy.id, wf, cleared, renewed⟩

theorem rewritten_replaceFormer {mixins : List String} (wf : s.WellFormed) :
    Ensures saved (Desk.Shows saved fun s' => s.Edited s' p.owner.id (Node.gain mixins))
      (replaceFormer p)
      (fun _ => Desk.Shows saved (s.Rewritten · p.owner.id mixins)) fun _ => True := by
  refine .bind (shows_ask (Q := fun former s' =>
    s.Edited s' p.owner.id (Node.gain mixins) ∧ ∀ f, former = some f →
      s'.child? p.owner.id Policy.nodeName = some f.id) fun d hd former hf =>
        ⟨hd.tree, fun f hsome => child_of_view (hsome ▸ hf)⟩) fun former => ?_
  cases former
  case none =>
    refine weaken rewritten_storeAnew (fun _ hd => ⟨hd.orderly, fun free => ?_⟩) (fun _ _ => id)
      fun _ => id
    exact Store.cleared_of_no_child hd.tree.1 (hd.tree.1.child_eq wf ▸ free)
  case some f =>
    exact .bind (R := fun _ => Desk.Shows saved fun base =>
        base.child? p.owner.id Policy.nodeName = none → s.Cleared base p.owner.id mixins)
      (shows_removeNode fun mid s' q _ hk hr _ =>
        Store.cleared_of_removed wf hk.1 (hk.2 f rfl) hr) fun _ => rewritten_storeAnew

theorem rewritten_store (there : ∃ n, s.nodes[p.owner.id]? = some n) (wf : s.WellFormed) :
    Ensures saved (Desk.Shows saved (· = s)) p.store
      (fun _ => Desk.Shows saved
        (s.Rewritten · p.owner.id (s.lackedMixins saved.types p.owner.id))) fun _ => True := by
  have ⟨n, hn⟩ := there
  refine .bind (shows_ask (Q := fun (isControlled : Bool) s' => s' = s ∧
    (isControlled ↔ Policy.mixin ∈ s.effectiveTypes saved.types p.owner.id))
    fun d hd isControlled hc => ⟨hd.tree, ?_⟩) fun isControlled => ?_
  · rw [← hd.tree]
    exact (isType_of_view hc).2
  · cases isControlled
    case true =>
      refine weaken (rewritten_replaceFormer wf) (fun d hd => ⟨hd.orderly, ?_⟩) (fun _ _ => id)
        fun _ => id
      obtain ⟨tree, controlled⟩ := hd.tree
      rw [tree, Store.lackedMixins, if_pos (controlled.1 rfl)]
      exact Store.edited_of_gain_nil hn
    case false =>
      refine .bind (shows_addMixin fun _ s' _ hk hs => ?_) fun _ => rewritten_replaceFormer wf
      obtain ⟨rfl, controlled⟩ := hk
      have lacked : Policy.mixin ∉ _ := fun hc => nomatch controlled.2 hc
      rw [Store.lackedMixins, if_neg lacked]
      exact Store.edited_of_addMixin_of_lacked lacked hs

end Ensures

end SessionM

end PolicyTree
