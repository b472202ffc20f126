import PolicyTree.Proofs.Access.Completeness
import PolicyTree.Proofs.Access.Keeping

namespace PolicyTree

-- What it takes of the entries.

section

variable {es : List Entry} {i j : Item}

theorem grants_removeNode_iff (hi : i.isPolicyItem = false) :
    (evaluate es i).grants .removeNode ↔
      PrivilegeBits.removeNode ⊆ (evaluate es i).allowPrivileges ∧
      PrivilegeBits.removeChildNodes ⊆ decided i.atParent true es := by
  have mem {p : Nat} (hp : p ∈ Permissions.removeNode) : p ∈ (evaluate es i).allows ↔
      PrivilegeBits.removeNode ⊆ (evaluate es i).allowPrivileges ∧
      PrivilegeBits.removeChildNodes ⊆ decided i.atParent true es := by
    have other : ¬∃ m ∈ meanings false, m.1 ⊆ decided i.atItem true es ∧ p ∈ m.2 := by
      intro hm
      have ⟨m, hm, _, hpm⟩ := hm
      have := meanings_held_not_removal m hm
      exact absurd (FlagSet.meets_iff.2 ⟨p, hpm, hp⟩) (by simp [this])
    simp [evaluate_eq, settled, mem_permissionsFor, hi, other, hp, decidesRemoval_iff]
  rw [Decision.grants, decide_eq_true_iff, FlagSet.subset_iff]
  constructor
  case mp  => exact fun h => (mem (p := 3) (by decide)).1 (h 3 (by decide))
  case mpr => exact fun h p hp => (mem hp).2 h

-- The entries from above the node decide for its parent as they do for an item there.
theorem decided_atParent (hp : Path.parent i.path = some j.path) :
    decided i.atParent true es =
      (evaluate (es.filter fun e => !e.isLocal i.node) j).allowPrivileges := by
  have counts : i.atParent = fun e => !e.isLocal i.node && j.atItem e := by
    funext e
    simp [Item.atParent, Item.atItem, hp]
  rw [evaluate_eq, settled, decided_filter, counts]

theorem not_grants_removeNode (hi : i.isPolicyItem = false) (hp : Path.parent i.path = none) :
    (evaluate es i).grants .removeNode = false := by
  rw [Bool.eq_false_iff, Ne, grants_removeNode_iff hi]
  intro both
  have ⟨e, he, _⟩ := mem_decided.1 (FlagSet.subset_iff.1 both.2 4 (by decide))
  have := (decider_counts he).1
  simp [Item.atParent, hp] at this

end

namespace Store

def IsPolicyItem (s : Store) (t : NodeTypes) (id : NodeId) : Prop :=
  Policy.listType ∈ s.effectiveTypes t id ∨ Policy.entryType ∈ s.effectiveTypes t id

instance {s : Store} {t : NodeTypes} {id : NodeId} : Decidable (s.IsPolicyItem t id) :=
  inferInstanceAs (Decidable (_ ∨ _))

-- What is kept of a collection is what is collected for the node where it stands.
def Collected (s : Store) (t : NodeTypes) (r : Registry) (k : EntryKey) (es : List Entry) : Prop :=
  ∀ ps o, k = .of ps o → s.handle? o.id = some o → collect (s.view t) r ps o = .ok es

variable {s : Store} {t : NodeTypes} {r : Registry} {ps : PrincipalSet} {ns : List String}
  {id p : NodeId} {ids : List NodeId} {n : Node} {way above : List (NodeId × Node)}

namespace WellFormed

variable (h : s.WellFormed)

include h

-- The way from a node begins with the node and goes on from its parent.
theorem lineage_of_child (hs : s.Stands ns p) (hn : s.nodes[id]? = some n) (hp : n.parent = some p)
    (hw : s.lineage? id = some way) (ha : s.lineage? p = some above) :
    way.map (·.1) = id :: above.map (·.1) := by
  have ⟨way', hw', _, stands⟩ := h.lineage_eq (.child hs hp hn)
  have ⟨above', ha', _, stands'⟩ := h.lineage_eq hs
  obtain rfl := Option.some_inj.1 (hw.symm.trans hw')
  obtain rfl := Option.some_inj.1 (ha.symm.trans ha')
  rw [Path.inits_concat, List.reverse_append, List.reverse_singleton, List.singleton_append]
    at stands
  have unique : Relator.RightUnique s.Stands := fun _ _ _ => h.stands_inj
  exact unique.forall₂ stands (.cons (.child hs hp hn) stands')

-- The entries for a node, less its own, are those for its parent.
theorem filter_entriesOn (hids : (id :: ids).Nodup) :
    (s.entriesOn t r ps (id :: ids)).filter (fun e => !e.isLocal id) = s.entriesOn t r ps ids := by
  have local_iff {name : String} {x : NodeId} {e : Entry}
      (he : e ∈ (s.listAt t r x).filter (·.principal = name)) : e.isLocal id ↔ x = id := by
    simp [Entry.isLocal, h.listAt_keeps.1 e (List.mem_filter.1 he).1]
  have own {name : String} : ((s.listAt t r id).filter (·.principal = name)).filter
      (fun e => !e.isLocal id) = [] :=
    List.filter_eq_nil_iff.2 fun e he => by simp [(local_iff he).2 rfl]
  have others {name : String} {x : NodeId} (hx : x ∈ ids) :
      ((s.listAt t r x).filter (·.principal = name)).filter (fun e => !e.isLocal id) =
        (s.listAt t r x).filter (·.principal = name) := by
    have : x ≠ id := fun hc => (List.nodup_cons.1 hids).1 (hc ▸ hx)
    exact List.filter_eq_self.2 fun e he => by simpa using (local_iff he).not.2 this
  rw [entriesOn, entriesOn, List.filter_flatMap]
  refine List.flatMap_congr fun name _ => ?_
  rw [List.flatMap_cons, List.filter_append, own, List.nil_append, List.filter_flatMap]
  exact List.flatMap_congr fun x hx => others hx

variable (ps) (readable : ∀ x, ¬s.Malformed t r x)

include readable

theorem decideAfresh_of_governor {path : String} {o : NodeHandle} {isPolicyItem : Bool}
    (hg : governor (s.view t) path = .ok (o, isPolicyItem)) :
    ∃ way, s.lineage? o.id = some way ∧ decideAfresh (s.view t) r ps path =
      .ok (evaluate (s.entriesOn t r ps (way.map (·.1))) ⟨path, o.id, isPolicyItem⟩) := by
  have ⟨way, hw, collected⟩ := h.collect_cases t r ps (h.handle_of_governor hg)
  rcases collected with ⟨⟨x, _, hx⟩, _⟩ | ⟨_, collected⟩
  · exact absurd hx (readable x.1)
  · exact ⟨way, hw, Deems.decideAfresh_eq ⟨o, isPolicyItem, hg, collected, rfl⟩⟩

theorem decideAfresh_eq (hs : s.Stands ns id) (hi : ¬s.IsPolicyItem t id) :
    ∃ way, s.lineage? id = some way ∧ decideAfresh (s.view t) r ps (Path.ofNames ns) =
      .ok (evaluate (s.entriesOn t r ps (way.map (·.1))) ⟨Path.ofNames ns, id, false⟩) := by
  have ⟨n, hn⟩ := h.mem_of_stands hs
  have located := h.locate_eq (t := t) (h.isSegment_of_stands hs) (.of_stands hs)
  have governed : governing (s.view t) ⟨id, Path.ofNames ns⟩ =
      .ok (⟨id, Path.ofNames ns⟩, false) := by
    have ⟨list, entry⟩ := not_or.1 hi
    rw [governing_of_isType (view_isType hn) (view_isType hn)]
    simp [list, entry]
  exact h.decideAfresh_of_governor ps readable (bind_eq_ok_iff.2 ⟨_, located, governed⟩)

-- What is decided on a node for its parent is what is decided on the parent.
theorem decideAfresh_child (hs : s.Stands ns p) (hn : s.nodes[id]? = some n)
    (hp : n.parent = some p) (hi : ¬s.IsPolicyItem t id) (hip : ¬s.IsPolicyItem t p) :
    ∃ onNode onParent,
      decideAfresh (s.view t) r ps (Path.ofNames (ns ++ [n.name])) = .ok onNode ∧
      decideAfresh (s.view t) r ps (Path.ofNames ns) = .ok onParent ∧
      (onNode.grants .removeNode ↔
        PrivilegeBits.removeNode ⊆ onNode.allowPrivileges ∧
        PrivilegeBits.removeChildNodes ⊆ onParent.allowPrivileges) := by
  have hs' : s.Stands (ns ++ [n.name]) id := .child hs hp hn
  have ⟨way, hw, decided⟩ := h.decideAfresh_eq ps readable hs' hi
  have ⟨above, ha, decided'⟩ := h.decideAfresh_eq ps readable hs hip
  refine ⟨_, _, decided, decided', ?_⟩
  have onward := h.lineage_of_child hs hn hp hw ha
  have up : Path.parent (Path.ofNames (ns ++ [n.name])) = some (Path.ofNames ns) :=
    Path.parent_ofNames (h.isSegment_of_stands hs')
  have distinct := h.nodup_lineage hs' hw
  rw [grants_removeNode_iff rfl, decided_atParent (j := ⟨Path.ofNames ns, p, false⟩) up]
  rw [onward] at distinct ⊢
  rw [h.filter_entriesOn distinct]

theorem decideAfresh_root (hi : ¬s.IsPolicyItem t s.root) : ∃ d,
    decideAfresh (s.view t) r ps Path.root = .ok d ∧ d.grants .removeNode = false := by
  have ⟨_, _, decided⟩ := h.decideAfresh_eq ps readable .root hi
  exact ⟨_, decided, not_grants_removeNode rfl Path.parent_root⟩

omit readable in
-- A root that is access control content has no owner to govern it.
theorem decideAfresh_root_policyItem (hi : s.IsPolicyItem t s.root) :
    ∃ e, decideAfresh (s.view t) r ps Path.root = .error e := by
  obtain ⟨n, hn, hp⟩ := h.root
  have located := h.locate_eq (t := t) (h.isSegment_of_stands .root) (.of_stands .root)
  have none {k : Nat} : ∃ e, ownerAbove (s.view t) (k + 1) ⟨s.root, Path.root⟩ = .error e := by
    rw [ownerAbove, view_parent_root hn hp]
    exact ⟨_, rfl⟩
  obtain ⟨e₁, he₁⟩ := none (k := 0)
  obtain ⟨e₂, he₂⟩ := none (k := 1)
  obtain ⟨e, he⟩ : ∃ e, governing (s.view t) ⟨s.root, Path.root⟩ = .error e := by
    rw [governing_of_isType (view_isType hn) (view_isType hn)]
    by_cases list : Policy.listType ∈ s.effectiveTypes t s.root
    case pos => exact ⟨e₁, by simp [list, he₁]⟩
    case neg => exact ⟨e₂, by simp [list, hi.resolve_left list, he₂]⟩
  refine ⟨e, ?_⟩
  rw [decideAfresh, ← Path.ofNames_nil, located]
  show governing (s.view t) _ >>= _ = _
  rw [Path.ofNames_nil, he]
  rfl

end WellFormed

-- What is kept of a tree that stays as it is.
theorem WellFormed.sustains_afresh (h : s.WellFormed) : Sustains (s.view t) r ps (s.Collected t r)
    (fun path d => decideAfresh (s.view t) r ps path = .ok d) fun _ _ => True where
  entries hg hc := by
    have ho := h.handle_of_governor hg
    intro ps' o hk ho'
    obtain ⟨signature, hid⟩ := EntryKey.mk.inj hk
    obtain rfl := Option.some_inj.1 (ho.symm.trans (hid ▸ ho'))
    exact (collect_congr (PrincipalSet.names_eq_of_signature_eq signature)).symm.trans hc
  decisions hg he :=
    have collected := he _ _ rfl (h.handle_of_governor hg)
    Deems.decideAfresh_eq ⟨_, _, hg, collected, rfl⟩
  reads _ _ := trivial

end Store

variable {s : Store} {t : NodeTypes} {r : Registry} {ps : PrincipalSet} {b : Bench} {path : String}

-- What is kept of whether nodes may be read is what is decided on them.
def Store.Readings (s : Store) (t : NodeTypes) (r : Registry) (ps : PrincipalSet) (id : NodeId)
    (granted : Bool) : Prop :=
  ∀ o, s.handle? id = some o →
    (·.grants .read) <$> decideAfresh (s.view t) r ps o.path = .ok granted

-- An open evaluator for some principals. It and its collector may have been at work before, but on
-- no other tree.
structure Bench.AtHome (s : Store) (t : NodeTypes) (r : Registry) (ps : PrincipalSet) (b : Bench) :
    Prop where
  principals : b.evaluator.principals = ps
  isOpen     : b.evaluator.isClosed = false
  holds      : b.Holds (s.Collected t r) (fun path d => decideAfresh (s.view t) r ps path = .ok d)
    (s.Readings t r ps)

namespace Bench.AtHome

theorem of_fresh (h : b.Fresh ps) : b.AtHome s t r ps :=
  ⟨h.principals, h.isOpen, by simp [Cache.Holds, h.entries], by simp [Cache.Holds, h.decisions],
    by simp [Cache.Holds, h.reads]⟩

theorem sustains (wf : s.WellFormed) : Sustains (s.view t) r ps (s.Collected t r)
    (fun path d => decideAfresh (s.view t) r ps path = .ok d) (s.Readings t r ps) where
  entries   := wf.sustains_afresh.entries
  decisions := wf.sustains_afresh.decisions
  reads ht hd o ho := by
    obtain rfl := Option.some_inj.1 ((wf.handle_of_readTarget ht).symm.trans ho)
    rw [hd]
    rfl

variable (h : b.AtHome s t r ps) (wf : s.WellFormed)

include h wf

theorem decision : ((EvaluatorM.decision (s.view t) r path).run.run b).1 =
    decideAfresh (s.view t) r ps path := by
  rcases hr : (EvaluatorM.decision (s.view t) r path).run.run b with ⟨answer, b'⟩
  have ⟨answered, _⟩ :=
    EvaluatorM.answers_decision (sustains wf) b h.principals h.isOpen h.holds _ _ hr
  cases answer
  case ok    => exact answered.symm
  case error => exact answered.symm

theorem grants {permissions : Permissions} :
    ((EvaluatorM.grants (s.view t) r path permissions).run.run b).1 =
      (·.grants permissions) <$> decideAfresh (s.view t) r ps path := by
  rw [EvaluatorM.grants_eq, EvaluatorM.run_map, h.decision wf]

theorem privileges : ((EvaluatorM.privileges (s.view t) r path).run.run b).1 =
    (·.allowPrivileges) <$> decideAfresh (s.view t) r ps path := by
  rw [EvaluatorM.privileges_eq, EvaluatorM.run_map, h.decision wf]

theorem canRead {node : NodeHandle} (hl : locate (s.view t) path = .ok node) :
    ((EvaluatorM.canRead (s.view t) r path none).run.run b).1 =
      (·.grants .read) <$> decideAfresh (s.view t) r ps node.path := by
  rcases hr : (EvaluatorM.canRead (s.view t) r path none).run.run b with ⟨answer, b'⟩
  have ⟨answered, _⟩ :=
    EvaluatorM.answers_canRead (sustains wf) b h.principals h.isOpen h.holds _ _ hr
  cases answer
  case ok =>
    obtain ⟨node', hl', read⟩ := answered
    obtain rfl := Except.ok.inj (hl.symm.trans hl')
    exact (read _ (wf.handle_of_locate hl)).symm
  case error =>
    have failed : (locate (s.view t) path >>= fun node =>
        decideAfresh (s.view t) r ps node.path) = .error _ := answered
    rw [hl] at failed
    rw [show decideAfresh (s.view t) r ps node.path = .error _ from failed]
    rfl

end Bench.AtHome

-- An open evaluator that has answered nothing yet. Its collector may have been in use before, but
-- not on any other tree.
structure Bench.Built (s : Store) (t : NodeTypes) (r : Registry) (ps : PrincipalSet) (b : Bench) :
    Prop where
  principals : b.evaluator.principals = ps
  isOpen     : b.evaluator.isClosed = false
  decisions  : b.evaluator.decisions.entries = []
  reads      : b.evaluator.reads.entries = []
  collected  : b.collector.cache.Holds (s.Collected t r)

namespace Bench.Built

theorem of_fresh (h : b.Fresh ps) : b.Built s t r ps :=
  ⟨h.principals, h.isOpen, h.decisions, h.reads, by simp [Cache.Holds, h.entries]⟩

theorem atHome (h : b.Built s t r ps) : b.AtHome s t r ps :=
  ⟨h.principals, h.isOpen, h.collected, by simp [Cache.Holds, h.decisions],
    by simp [Cache.Holds, h.reads]⟩

variable (h : b.Built s t r ps) (wf : s.WellFormed)

include h wf

theorem decision : ((EvaluatorM.decision (s.view t) r path).run.run b).1 =
    decideAfresh (s.view t) r ps path :=
  h.atHome.decision wf

theorem grants {permissions : Permissions} :
    ((EvaluatorM.grants (s.view t) r path permissions).run.run b).1 =
      (·.grants permissions) <$> decideAfresh (s.view t) r ps path :=
  h.atHome.grants wf

theorem privileges : ((EvaluatorM.privileges (s.view t) r path).run.run b).1 =
    (·.allowPrivileges) <$> decideAfresh (s.view t) r ps path :=
  h.atHome.privileges wf

end Bench.Built

-- A new evaluator lets a node be removed if and only if it finds the one privilege on the node and
-- the other on its parent. The root is never to be removed.
theorem removal_takes_both (h : s.WellFormed) (readable : ∀ x, ¬s.Malformed t r x)
    (hb : b.Built s t r ps) :
    let grants path := ((EvaluatorM.grants (s.view t) r path .removeNode).run.run b).1
    let privileges path := ((EvaluatorM.privileges (s.view t) r path).run.run b).1
    (∀ id p path above, s.IsParent p id → s.pathOf? id = some path → s.pathOf? p = some above →
      ¬s.IsPolicyItem t id → ¬s.IsPolicyItem t p →
      ∃ granted onNode onParent, grants path = .ok granted ∧
        privileges path = .ok onNode ∧ privileges above = .ok onParent ∧
        (granted ↔ PrivilegeBits.removeNode ⊆ onNode ∧
          PrivilegeBits.removeChildNodes ⊆ onParent)) ∧
    grants Path.root ≠ .ok true ∧
    (¬s.IsPolicyItem t s.root → grants Path.root = .ok false) := by
  intro grants privileges
  have grants_eq (path : String) : grants path =
      (·.grants .removeNode) <$> decideAfresh (s.view t) r ps path := hb.grants h
  have privileges_eq (path : String) : privileges path =
      (·.allowPrivileges) <$> decideAfresh (s.view t) r ps path := hb.privileges h
  have refused (hi : ¬s.IsPolicyItem t s.root) : grants Path.root = .ok false := by
    have ⟨d, decided, hd⟩ := h.decideAfresh_root ps readable hi
    rw [grants_eq, decided]
    exact congrArg Except.ok hd
  refine ⟨fun id p path above hp hpath habove hi hip => ?_, ?_, refused⟩
  · have ⟨n, hn, hp⟩ := hp
    obtain ⟨ns, hs, rfl⟩ := h.stands_of_pathOf habove
    obtain rfl := Option.some_inj.1 (hpath.symm.trans (h.pathOf_eq (.child hs hp hn)))
    have ⟨onNode, onParent, decided, decided', both⟩ :=
      h.decideAfresh_child ps readable hs hn hp hi hip
    rw [grants_eq, privileges_eq, privileges_eq, decided, decided']
    exact ⟨_, _, _, rfl, rfl, rfl, both⟩
  · by_cases hi : s.IsPolicyItem t s.root
    case neg => simp [refused hi]
    case pos =>
      have ⟨e, he⟩ := h.decideAfresh_root_policyItem (r := r) ps hi
      rw [grants_eq, he]
      exact fun hc => nomatch hc

-- A page and a part of it. Of what it takes to remove the part, staff has the privilege on the
-- page, and there alone, and alice has the one on the part.
def shared : Store := (Store.initial ⟨0⟩ "rep:root").afterAll [
  ⟨.addNode ⟨⟨0⟩, "/"⟩ "page" "nt:unstructured", ⟨1⟩⟩,
  ⟨.addMixin ⟨⟨1⟩, "/page"⟩ "rep:AccessControllable", ⟨2⟩⟩,
  ⟨.addNode ⟨⟨1⟩, "/page"⟩ "rep:policy" "rep:ACL", ⟨2⟩⟩,
  ⟨.addNode ⟨⟨2⟩, "/page/rep:policy"⟩ "allow" "rep:GrantACE", ⟨3⟩⟩,
  ⟨.setProperty ⟨⟨3⟩, "/page/rep:policy/allow"⟩ "rep:principalName" (.string "staff"), ⟨4⟩⟩,
  ⟨.setProperty ⟨⟨3⟩, "/page/rep:policy/allow"⟩ "rep:privileges" (.names ["jcr:removeChildNodes"]),
    ⟨4⟩⟩,
  ⟨.setProperty ⟨⟨3⟩, "/page/rep:policy/allow"⟩ "rep:glob" (.string ""), ⟨4⟩⟩,
  ⟨.addNode ⟨⟨1⟩, "/page"⟩ "part" "nt:unstructured", ⟨4⟩⟩,
  ⟨.addMixin ⟨⟨4⟩, "/page/part"⟩ "rep:AccessControllable", ⟨5⟩⟩,
  ⟨.addNode ⟨⟨4⟩, "/page/part"⟩ "rep:policy" "rep:ACL", ⟨5⟩⟩,
  ⟨.addNode ⟨⟨5⟩, "/page/part/rep:policy"⟩ "allow" "rep:GrantACE", ⟨6⟩⟩,
  ⟨.setProperty ⟨⟨6⟩, "/page/part/rep:policy/allow"⟩ "rep:principalName" (.string "alice"), ⟨7⟩⟩,
  ⟨.setProperty ⟨⟨6⟩, "/page/part/rep:policy/allow"⟩ "rep:privileges" (.names ["jcr:removeNode"]),
    ⟨7⟩⟩]

theorem part_takes_alice_and_staff :
    let both := PrincipalSet.ofList [.named "alice", .named "staff"]
    let b : Bench := ⟨.detached both 0 8 8, .new 8 ⟨0⟩⟩
    let grants path :=
      ((EvaluatorM.grants (shared.view .initial) .initial path .removeNode).run.run b).1
    let privileges path :=
      ((EvaluatorM.privileges (shared.view .initial) .initial path).run.run b).1
    shared.WellFormed ∧ (∀ x, ¬shared.Malformed .initial .initial x) ∧
    b.Built shared .initial .initial both ∧ shared.IsParent ⟨1⟩ ⟨4⟩ ∧
    shared.pathOf? ⟨4⟩ = some "/page/part" ∧ shared.pathOf? ⟨1⟩ = some "/page" ∧
    ¬shared.IsPolicyItem .initial ⟨4⟩ ∧ ¬shared.IsPolicyItem .initial ⟨1⟩ ∧
    ¬shared.IsPolicyItem .initial shared.root ∧
    grants "/page/part" = .ok true ∧ grants "/" = .ok false ∧
    ∃ onPart onPage, privileges "/page/part" = .ok onPart ∧ privileges "/page" = .ok onPage ∧
      PrivilegeBits.removeNode ⊆ onPart ∧ PrivilegeBits.removeChildNodes ⊆ onPage := by
  intro both b grants privileges
  have wf : shared.WellFormed :=
    (Store.reachable_afterAll (by decide +kernel)).wellFormed
  have readable : ∀ x, ¬shared.Malformed .initial .initial x :=
    wf.readable_of_loads (by decide +kernel)
  have built : b.Built shared .initial .initial both := .of_fresh .detached
  have below : shared.IsParent ⟨1⟩ ⟨4⟩ := Option.bind_eq_some_iff.1 <|
    show (shared.nodes[(⟨4⟩ : NodeId)]?.bind (·.parent)) = some ⟨1⟩ by decide +kernel
  have path : shared.pathOf? ⟨4⟩ = some "/page/part" := by decide +kernel
  have above : shared.pathOf? ⟨1⟩ = some "/page" := by decide +kernel
  have plain : ¬shared.IsPolicyItem .initial ⟨4⟩ := by decide +kernel
  have plain' : ¬shared.IsPolicyItem .initial ⟨1⟩ := by decide +kernel
  have plain'' : ¬shared.IsPolicyItem .initial shared.root := by decide +kernel
  have granted : grants "/page/part" = .ok true := by decide +kernel
  have ⟨removal, _, root⟩ := removal_takes_both wf readable built
  have ⟨_, onPart, onPage, granted', onPart_eq, onPage_eq, both⟩ :=
    removal _ _ _ _ below path above plain plain'
  obtain rfl := Except.ok.inj (granted.symm.trans granted')
  exact ⟨wf, readable, built, below, path, above, plain, plain', plain'', granted, root plain'',
    onPart, onPage, onPart_eq, onPage_eq, both.1 rfl⟩

end PolicyTree
