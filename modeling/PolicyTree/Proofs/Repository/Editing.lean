import PolicyTree.Proofs.Access.Overlooking
import PolicyTree.Proofs.Policy.Replacing
import PolicyTree.Proofs.Repository.Policies

namespace PolicyTree

namespace Store

variable {s s' base : Store} {t : NodeTypes} {owner policy x : NodeId} {mixins : List String}

-- A node has got another policy. Of all that is neither in the one that it had nor in the one that
-- it has, the node alone has changed, and that as little as it takes.
structure PolicySet (s s' : Store) (t : NodeTypes) (owner : NodeId) : Prop where
  root      : s'.root = s.root
  elsewhere : ∀ {x : NodeId}, x ∈ s.nodes → ¬s.InPolicy owner x → ¬s'.InPolicy owner x ∧
    s'.pathOf? x = s.pathOf? x ∧ (x ≠ owner → s'.nodes[x]? = s.nodes[x]?)
  new       : ∀ {x : NodeId}, x ∈ s'.nodes → ¬s'.InPolicy owner x →
    x ∈ s.nodes ∧ ¬s.InPolicy owner x
  owner     : ∃ n policy, s.nodes[owner]? = some n ∧ ¬s.InPolicy owner owner ∧
    s'.child? owner Policy.nodeName = some policy ∧ s'.nodes[owner]? = some { n with
      mixins   := n.mixins ++ s.lackedMixins t owner
      children :=
        n.children.filter (fun c => s.child? owner Policy.nodeName ≠ some c) ++ [policy] }

structure PolicyRemoved (s s' : Store) (owner policy : NodeId) : Prop where
  root  : s'.root = s.root
  child : s.child? owner Policy.nodeName = some policy
  nodes : ∀ x : NodeId, s'.nodes[x]? = if s.isWithin policy x then none else
    (s.nodes[x]?).map fun n =>
      { n with children := if x = owner then n.children.filter (· ≠ policy) else n.children }
  paths : ∀ x : NodeId, ¬s.isWithin policy x → s'.pathOf? x = s.pathOf? x

theorem WellFormed.not_inPolicy_owner (wf : s.WellFormed) : ¬s.InPolicy owner owner := by
  rintro ⟨top, hc, within⟩
  cases ho : s.nodes[owner]?
  case none => simp [child?, ho] at hc
  case some on =>
    obtain ⟨n, hn, hp, _⟩ := (wf.child_eq_some_iff ho).1 hc
    exact wf.not_isWithin_parent hn hp within

theorem Rewritten.policySet (wf : s.WellFormed) (wf' : s'.WellFormed) (f : Follows s s')
    (there : owner ∈ s.nodes) (h : s.Rewritten s' owner (s.lackedMixins t owner)) :
    s.PolicySet s' t owner := by
  obtain ⟨base, policy, before, cleared, renewed⟩ := h
  have old {x : NodeId} (hx : x ∈ s.nodes) (hp : ¬s.InPolicy owner x) : x ∈ base.nodes :=
    cleared.mem_iff.2 ⟨hx, hp⟩
  have kept {x : NodeId} (hx : x ∈ base.nodes) : x ∈ s'.nodes := by
    have ⟨b, hb⟩ := mem_nodes_iff.1 hx
    exact mem_nodes_iff.2 ⟨_, by rw [renewed.kept hx, hb, Option.map_some]⟩
  have ⟨n, hn⟩ := mem_nodes_iff.1 there
  have apart : ¬s.InPolicy owner owner := wf.not_inPolicy_owner
  refine ⟨renewed.root.trans cleared.root, fun {x} hx hp => ⟨fun hp' => ?_, ?_, fun ho => ?_⟩,
    fun {x} hx hp => ?_, n, policy, hn, apart, renewed.child wf', ?_⟩
  · exact ((renewed.inPolicy_iff before wf').1 hp').2 (old hx hp)
  · exact f.pathOf_eq wf wf' ⟨fun _ => hx, fun _ => kept (old hx hp)⟩
  · rw [renewed.kept (old hx hp), cleared.kept hp]
    simp [ho]
  · by_contra hc
    exact hp <| (renewed.inPolicy_iff before wf').2 ⟨hx, fun hb => hc (cleared.mem_iff.1 hb)⟩
  · rw [renewed.kept (old there apart), cleared.kept apart, hn]
    simp [Node.gain]

theorem Cleared.policyRemoved (wf : s.WellFormed) (wf' : s'.WellFormed) (f : Follows s s')
    (hc : s.child? owner Policy.nodeName = some policy) (h : s.Cleared s' owner []) :
    s.PolicyRemoved s' owner policy := by
  have within {x : NodeId} : s.InPolicy owner x ↔ s.isWithin policy x := by simp [InPolicy, hc]
  refine ⟨h.root, hc, fun x => ?_, fun x hx => ?_⟩
  · split
    case isTrue hx  => exact h.gone (within.2 hx)
    case isFalse hx =>
      rw [h.kept (within.not.2 hx)]
      congr 1
      funext n
      by_cases ho : x = owner <;> simp [ho, hc, Node.gain, eq_comm]
  · refine f.pathOf_eq wf wf' ?_
    rw [h.mem_iff]
    exact and_iff_left (within.not.2 hx)

-- What never had a policy keeps nothing but the mixin of one that it had for a while.
theorem Cleared.edited (h : s.Cleared base owner mixins) (there : owner ∈ s.nodes)
    (hc : s.child? owner Policy.nodeName = none) : Edited s base owner (Node.gain mixins) := by
  have ⟨n, hn⟩ := mem_nodes_iff.1 there
  refine ⟨h.root, ⟨n, hn, rfl, rfl, rfl, rfl, List.prefix_append .., fun _ => .inl⟩, fun x => ?_⟩
  rw [h.kept (by simp [InPolicy, hc])]
  simp [hc, Node.gain]

-- A policy that is set where there was none, and removed again at the same path, leaves no trace in
-- what is decided.
theorem Rewritten.decidesLike {s'' : Store} {o o' : NodeHandle} {path : String} (wf : s.WellFormed)
    (wf' : s'.WellFormed) (f : Follows s s') (h : s.Rewritten s' o.id (s.lackedMixins t o.id))
    (plain : ¬s.IsPolicyItem t o.id) (bare : s.child? o.id Policy.nodeName = none)
    (owned : (s.view t).resolve path = .ok (some o))
    (again : (s'.view t).resolve path = .ok (some o')) (plain' : ¬s'.IsPolicyItem t o'.id)
    (cleared' : s'.Cleared s'' o'.id []) : s.DecidesLike s'' t := by
  obtain ⟨base, policy, before, cleared, renewed⟩ := h
  have ⟨onPath, ns, stands, path_eq⟩ := wf.of_resolve owned
  have there := mem_nodes_iff.2 (wf.mem_of_stands stands)
  have edited := cleared.edited there bare
  have ⟨m, hm⟩ := mem_nodes_iff.1 (edited.mem_of_mem there)
  have kept := renewed.kept (mem_nodes_iff.2 ⟨m, hm⟩)
  rw [hm, Option.map_some] at kept
  -- The path leads to the owner again.
  obtain rfl : o' = o := by
    refine f.eq_of_resolve wf wf' (t := t)
      (wf.handle_eq_some_iff.2 ⟨rfl, ns, stands, onPath.trans path_eq⟩) kept ?_
    rwa [onPath]
  have types : _ = base.effectiveTypes t o'.id := effectiveTypes_congr <| by
    rw [kept, hm, if_pos rfl]
    rfl
  rw [renewed.eq_of_cleared before wf' cleared']
  exact edited.decidesLike wf plain (by rwa [IsPolicyItem, ← types]) bare

end Store

namespace SessionM

variable {saved : Saved} {s : Store} {p : Policy} {path : String} {node o : NodeHandle}

theorem not_policyItem_of_view {desk : Desk}
    (h : Policy.isContent (desk.session.view saved) node = .ok false) :
    ¬(desk.store saved).IsPolicyItem saved.types node.id := by
  obtain ⟨isList, hl, h⟩ := bind_eq_ok_iff.1 h
  cases isList
  case true  => exact nomatch h
  case false =>
    have list := (isType_of_view hl).2
    have entry := (isType_of_view h).2
    rintro (hc | hc)
    · exact nomatch list.2 hc
    · exact nomatch entry.2 hc

theorem exists_of_target {desk : Desk} (h : Editor.target (desk.session.view saved) path = .ok o) :
    ((desk.store saved).view saved.types).resolve path = .ok (some o) ∧
    ¬(desk.store saved).IsPolicyItem saved.types o.id := by
  have ⟨resolved, plain⟩ := Editor.target_eq_ok_iff.1 h
  exact ⟨resolve_of_view resolved, not_policyItem_of_view plain⟩

namespace Ensures

theorem rewritten_setPolicy (wf : s.WellFormed)
    (owned : (s.view saved.types).resolve path = .ok (some p.owner)) :
    Ensures saved (Desk.Shows saved (· = s)) (Editor.setPolicy path p)
      (fun _ => Desk.Shows saved fun s' => ¬s.IsPolicyItem saved.types p.owner.id ∧
        s.Rewritten s' p.owner.id (s.lackedMixins saved.types p.owner.id)) fun _ => True := by
  have ⟨_, _, stands, _⟩ := wf.of_resolve owned
  let Plain := ¬s.IsPolicyItem saved.types p.owner.id
  have stored : Ensures saved (Desk.Shows saved fun s' => s' = s ∧ Plain) p.store
      (fun _ => Desk.Shows saved fun s' => Plain ∧
        s.Rewritten s' p.owner.id (s.lackedMixins saved.types p.owner.id)) fun _ => True := by
    rintro desk ⟨orderly, tree, plain⟩
    exact (rewritten_store (wf.mem_of_stands stands) wf).weaken (fun _ => id)
      (fun _ _ hd => ⟨hd.orderly, plain, hd.tree⟩) (fun _ => id) desk ⟨orderly, tree⟩
  refine .bind (shows_ask (Q := fun _ s' => s' = s ∧ Plain) fun d hd o ho => ⟨hd.tree, ?_⟩)
    fun o => ?_
  · obtain ⟨resolved, plain⟩ := exists_of_target ho
    rw [hd.tree] at resolved plain
    obtain rfl := Option.some_inj.1 (Except.ok.inj (owned.symm.trans resolved))
    exact plain
  · split
    case isTrue  => exact .bind (R := fun _ _ => False) (.throw fun _ _ => trivial) fun _ _ => nofun
    case isFalse => exact .lift stored

theorem cleared_removePolicy (wf : s.WellFormed) :
    Ensures saved (Desk.Shows saved (· = s)) (Editor.removePolicy path)
      (fun _ => Desk.Shows saved fun s' => ∃ o policy,
        (s.view saved.types).resolve path = .ok (some o) ∧ ¬s.IsPolicyItem saved.types o.id ∧
        s.child? o.id Policy.nodeName = some policy ∧ s.Cleared s' o.id []) fun _ => True := by
  refine .bind (shows_ask (Q := fun policy s' => s' = s ∧ ∃ o,
    (s.view saved.types).resolve path = .ok (some o) ∧ ¬s.IsPolicyItem saved.types o.id ∧
    s.child? o.id Policy.nodeName = some policy.id) fun d hd policy hp => ⟨hd.tree, ?_⟩)
    fun policy => .lift <| shows_removeNode fun _ s' _ _ hk hr => ?_
  · obtain ⟨o, ho, hp⟩ := bind_eq_ok_iff.1 hp
    obtain ⟨found, hf, hp⟩ := bind_eq_ok_iff.1 hp
    cases found
    case none   => exact nomatch hp
    case some _ =>
      obtain rfl := Except.ok.inj hp
      rw [← hd.tree]
      have ⟨resolved, plain⟩ := exists_of_target ho
      exact ⟨o, resolved, plain, child_of_view (Policy.child_of_node (mapError_eq_ok_iff.1 hf))⟩
  · obtain ⟨rfl, o, resolved, plain, hc⟩ := hk
    have ⟨_, _, stands, _⟩ := wf.of_resolve resolved
    have ⟨n, hn⟩ := wf.mem_of_stands stands
    exact ⟨o, policy.id, resolved, plain, hc,
      Store.cleared_of_removed wf (Store.edited_of_gain_nil hn) hc hr⟩

end Ensures

end SessionM

namespace Repository

variable {α ε : Type} {s : Repository} {t : NodeTypes} {n : Nat} {path : String}

def treeOf (s : Repository) (n : Nat) : Store := (s.session n).store s.saved

theorem contains_after {work : SessionM ε α} (here : s.sessions.contains n) :
    (s.after (inSession n work)).sessions.contains n := by
  rw [after, run_inSession]
  exact Table.contains_set.trans here

namespace Orderly

variable (h : s.Orderly t)

include h

theorem wellFormed_treeOf : (s.treeOf n).WellFormed := by
  have orderly := (h.desk n).wellFormed
  rwa [← Desk.store_eq] at orderly

-- What is ensured of a session is so in the repository.
theorem of_ensures {work : SessionM ε α} {Q : Store → Prop} (here : s.sessions.contains n)
    (hw : work.Composed) {a : α} (done : ((inSession n work).run.run s).1 = .ok a)
    (ensures : SessionM.Ensures s.saved (Desk.Shows s.saved (· = s.treeOf n)) work
      (fun _ => Desk.Shows s.saved Q) fun _ => True) :
    (s.after (inSession n work)).Orderly t ∧ Q ((s.after (inSession n work)).treeOf n) ∧
      (s.treeOf n).Follows ((s.after (inSession n work)).treeOf n) := by
  have tree : Desk.store s.saved ⟨s.session n, s.nextId⟩ = s.treeOf n := Desk.store_eq.symm
  have turns : Desk.Turns s.saved ⟨s.session n, s.nextId⟩ _ := hw.turns
  have follows := (h.desk n).follows turns
  have tree' : (s.after (inSession n work)).treeOf n =
      Desk.store s.saved (work.run' s.saved ⟨s.session n, s.nextId⟩).2 := by
    rw [treeOf, session_after here, saved_after, Desk.store_eq]
  rw [run_inSession] at done
  rw [tree']
  exact ⟨h.work hw, (ensures.of_ok ⟨h.desk n, tree⟩ done).tree, tree ▸ follows⟩

end Orderly

-- Setting a policy touches the node that owns it and the policies that it had and has, and removing
-- one takes it away and nothing more. Once a policy that is set on a node without one is removed,
-- new evaluators find whatever they found before.
theorem policy_edits_touch_nothing_else (reached : Relation.ReflTransGen Moves (.initial t) s)
    (here : s.sessions.contains n) (path : String) :
    let setting (p : Policy) := inSession n (Editor.setPolicy path p)
    let removing := inSession n (Editor.removePolicy path)
    let owns (p : Policy) := ((s.treeOf n).view t).resolve path = .ok (some p.owner)
    (∀ p, owns p → ((setting p).run.run s).1 = .ok () →
      (s.treeOf n).PolicySet ((s.after (setting p)).treeOf n) t p.owner.id) ∧
    ((removing.run.run s).1 = .ok () → ∃ owner policy,
      ((s.treeOf n).view t).resolve path = .ok (some owner) ∧
      (s.treeOf n).PolicyRemoved ((s.after removing).treeOf n) owner.id policy) ∧
    ∀ p, owns p → (s.treeOf n).child? p.owner.id Policy.nodeName = none →
      ((setting p).run.run s).1 = .ok () → (removing.run.run (s.after (setting p))).1 = .ok () →
      (s.treeOf n).DecidesLike (((s.after (setting p)).after removing).treeOf n) t := by
  intro setting removing owns
  have orderly := Orderly.reached reached
  have wf : (s.treeOf n).WellFormed := orderly.wellFormed_treeOf
  have set (p : Policy) (owned : owns p) (done : ((setting p).run.run s).1 = .ok ()) :=
    orderly.of_ensures here SessionM.composed_setPolicy done <|
      SessionM.Ensures.rewritten_setPolicy wf (orderly.types.symm ▸ owned)
  have removed {s : Repository} (orderly : s.Orderly t) (here : s.sessions.contains n)
      (done : (removing.run.run s).1 = .ok ()) :=
    orderly.of_ensures here SessionM.composed_removePolicy done <|
      SessionM.Ensures.cleared_removePolicy orderly.wellFormed_treeOf
  refine ⟨fun p owned done => ?_, fun done => ?_, fun p owned bare done done' => ?_⟩
  · have ⟨orderly', ⟨_, replaced⟩, follows⟩ := set p owned done
    rw [orderly.types] at replaced
    have ⟨_, _, stands, _⟩ := wf.of_resolve owned
    exact replaced.policySet wf orderly'.wellFormed_treeOf follows
      (Store.mem_nodes_iff.2 (wf.mem_of_stands stands))
  · have ⟨orderly', ⟨owner, policy, resolved, _, hc, cleared⟩, follows⟩ := removed orderly here done
    rw [orderly.types] at resolved
    exact ⟨owner, policy, resolved, cleared.policyRemoved wf orderly'.wellFormed_treeOf follows hc⟩
  · have ⟨orderly', ⟨plain, replaced⟩, follows⟩ := set p owned done
    have ⟨_, ⟨o, _, resolved, plain', _, cleared⟩, _⟩ :=
      removed orderly' (contains_after here) done'
    rw [orderly.types] at plain replaced
    rw [orderly'.types] at resolved plain'
    exact replaced.decidesLike wf orderly'.wellFormed_treeOf follows plain bare owned resolved
      plain' cleared

-- A policy for the root, where there is none.
def passingPolicy : Policy :=
  ⟨⟨⟨0⟩, "/"⟩, [⟨"bob", [Privilege.write], false, ∅, ⟨⟨0⟩, "/"⟩⟩]⟩

theorem policy_comes_and_goes :
    let s := withPolicy .initial
    let setting (p : Policy) := inSession 0 (Editor.setPolicy p.owner.path p)
    let removing (path : String) := inSession 0 (Editor.removePolicy path)
    ((setting newerPolicy).run.run s).1 = .ok () ∧ ((removing "/pages").run.run s).1 = .ok () ∧
    ((setting passingPolicy).run.run s).1 = .ok () ∧
    ((removing "/").run.run (s.after (setting passingPolicy))).1 = .ok () ∧
    (s.treeOf 0).PolicySet ((s.after (setting newerPolicy)).treeOf 0) .initial pages.id ∧
    (∃ owner policy, ((s.treeOf 0).view .initial).resolve "/pages" = .ok (some owner) ∧
      (s.treeOf 0).PolicyRemoved ((s.after (removing "/pages")).treeOf 0) owner.id policy) ∧
    (s.treeOf 0).DecidesLike
      (((s.after (setting passingPolicy)).after (removing "/")).treeOf 0) .initial := by
  intro s setting removing
  have ⟨set, removed, passing, passed, owns, owns', bare⟩ :
      ((setting newerPolicy).run.run s).1 = .ok () ∧ ((removing "/pages").run.run s).1 = .ok () ∧
      ((setting passingPolicy).run.run s).1 = .ok () ∧
      ((removing "/").run.run (s.after (setting passingPolicy))).1 = .ok () ∧
      ((s.treeOf 0).view .initial).resolve "/pages" = .ok (some newerPolicy.owner) ∧
      ((s.treeOf 0).view .initial).resolve "/" = .ok (some passingPolicy.owner) ∧
      (s.treeOf 0).child? passingPolicy.owner.id Policy.nodeName = none := by decide +kernel
  have ⟨here, _⟩ := session_withPolicy
  have ⟨pagesSet, pagesRemoved, _⟩ :=
    policy_edits_touch_nothing_else reached_withPolicy here "/pages"
  have ⟨_, _, rootBack⟩ := policy_edits_touch_nothing_else reached_withPolicy here "/"
  exact ⟨set, removed, passing, passed, pagesSet _ owns set, pagesRemoved removed,
    rootBack _ owns' bare passing passed⟩

end Repository

end PolicyTree
